import Beep.Lib.Run

/-!
# `Lib.Replay` — reading a log again from an earlier point

A state is folded from the entries of a log, and a reader may go back to an earlier point and fold the entries from
there on once more, onto the state it has. A *slot* of the state is a projection that every entry either sets, to a
value that does not depend on the state, or leaves as it is (`IsSlot`). In between, slots hold values of different ages;
once the reader is back where it was, every slot holds what it held (`IsSlot.reread`).
-/

namespace Run

variable {σ ε α : Type*} {step : σ → ε → σ} {get : σ → α}

/-- The entry leaves the projection as it is. -/
def Leaves (step : σ → ε → σ) (get : σ → α) (e : ε) : Prop := ∀ s, get (step s e) = get s

/-- Every entry sets the projection, to a value of its own, or leaves it. -/
def IsSlot (step : σ → ε → σ) (get : σ → α) : Prop :=
  ∀ e, (∃ v, ∀ s, get (step s e) = v) ∨ Leaves step get e

/-- **A list of entries** sets a slot or leaves it, as one entry does. -/
theorem IsSlot.foldl (h : IsSlot step get) (es : List ε) :
    (∃ v, ∀ s, get (es.foldl step s) = v) ∨ ∀ s, get (es.foldl step s) = get s := by
  induction es with
  | nil => exact Or.inr fun s => rfl
  | cons e es ih =>
    rcases ih with ⟨v, hset⟩ | hleft
    · exact Or.inl ⟨v, fun s => hset (step s e)⟩
    · rcases h e with ⟨v, hset⟩ | hleave
      · exact Or.inl ⟨v, fun s => (hleft (step s e)).trans (hset s)⟩
      · exact Or.inr fun s => (hleft (step s e)).trans (hleave s)

/-- A slot depends on nothing but itself. -/
theorem IsSlot.foldl_congr (h : IsSlot step get) (es : List ε) {s s' : σ} (hs : get s = get s') :
    get (es.foldl step s) = get (es.foldl step s') := by
  rcases h.foldl es with ⟨v, hset⟩ | hleft
  · rw [hset, hset]
  · rw [hleft, hleft, hs]

/-- **Going back.** A state from which reading the log on from a point ends where the whole log does can as well be
    read on from any earlier point. -/
theorem IsSlot.reread (h : IsSlot step get) {log : List ε} {s start : σ} {k r : Nat} (hr : r ≤ k)
    (hs : get ((log.drop k).foldl step s) = get (log.foldl step start)) :
    get ((log.drop r).foldl step s) = get (log.foldl step start) := by
  have hlog : log.foldl step start = (log.drop r).foldl step ((log.take r).foldl step start) := by
    rw [← List.foldl_append, List.take_append_drop]
  have hagain : (log.drop r).foldl step s = (log.drop k).foldl step (((log.drop r).take (k - r)).foldl step s) := by
    rw [← List.foldl_append]
    congr 1
    have hsplit := (List.take_append_drop (k - r) (log.drop r)).symm
    rw [List.drop_drop, Nat.add_sub_cancel' hr] at hsplit
    exact hsplit
  rcases h.foldl (log.drop r) with ⟨v, hset⟩ | hleft
  · -- what is read again sets the slot, whatever it held
    rw [hset, hlog, hset]
  · -- nothing sets it: what is ahead does not either
    rw [hleft, ← hs]
    rcases h.foldl (log.drop k) with ⟨v, hset⟩ | hleft'
    · rw [← hleft, hagain, hset, hset]
    · rw [hleft']

end Run
