import Retracer.Library.Table

/-! # Entries that go stale

A map whose entries go stale with time may drop a stale entry whenever it likes. What it
still holds under a key is then the last entry that was written there, or nothing if that
one is stale. A reader who takes a stale entry for none cannot tell the two apart.
-/

namespace Sweeping

open KeyedTable

variable {ρ κ : Type} {stale stale' : ρ → Bool} {found last : Option ρ}

/-- What is found under a key whose last entry was `last`. -/
def Kept (stale : ρ → Bool) (found last : Option ρ) : Prop :=
  found = last ∨ found = none ∧ ∀ r ∈ last, stale r = true

theorem Kept.refl (stale : ρ → Bool) (last : Option ρ) : Kept stale last last := .inl rfl

/-- What is stale stays stale. -/
theorem Kept.mono (h : Kept stale found last) (hstale : ∀ r, stale r = true → stale' r = true) :
    Kept stale' found last :=
  h.imp_right fun ⟨hnone, hall⟩ => ⟨hnone, fun r hr => hstale r (hall r hr)⟩

/-- A sweep removes stale entries only. -/
theorem Kept.deleteWhere [Keyed ρ κ] [DecidableEq κ] {t : Table ρ} {k : κ}
    (h : Kept stale (t.find? k) last) {swept : ρ → Bool}
    (hswept : ∀ r, swept r = true → stale r = true) :
    Kept stale ((t.deleteWhere swept).find? k) last := by
  rw [Table.find?_deleteWhere]
  obtain hfound | ⟨hnone, hall⟩ := h
  · rw [hfound]
    cases last with
    | none => exact .inl rfl
    | some r =>
        by_cases hr : swept r = true
        · simp [Kept, hr, hswept r hr]
        · simp [Kept, hr]
  · rw [hnone]
    exact .inr ⟨rfl, hall⟩

/-- A reader who takes a stale entry for none sees the last entry. -/
theorem Kept.filter (h : Kept stale found last) :
    found.filter (fun r => !stale r) = last.filter fun r => !stale r := by
  obtain hfound | ⟨hnone, hall⟩ := h
  · rw [hfound]
  · rw [hnone]
    cases last with
    | none => rfl
    | some r => simp [Option.filter_some, hall r rfl]

/-- The same for a writer who starts a stale entry afresh. -/
theorem Kept.getD {τ : Type} (h : Kept stale found last) {write : ρ → τ} {fresh : ρ}
    (hwrite : ∀ r ∈ last, stale r = true → write r = write fresh) :
    write (found.getD fresh) = write (last.getD fresh) := by
  obtain hfound | ⟨hnone, hall⟩ := h
  · rw [hfound]
  · rw [hnone]
    cases last with
    | none => rfl
    | some r => exact (hwrite r rfl (hall r rfl)).symm

/-- The rows that are not stale are as many as the keys whose last entry is not. -/
theorem length_deleteWhere [Keyed ρ κ] [DecidableEq κ] {t : Table ρ} {last : κ → Option ρ}
    {keys : List κ} (h : ∀ k, Kept stale (t.find? k) (last k)) (hkeys : keys.Nodup)
    (hlast : ∀ k r, last k = some r → k ∈ keys) :
    (t.deleteWhere stale).rows.length =
      (keys.filter fun k => (last k).any fun r => !stale r).length := by
  have hsame : ((t.deleteWhere stale).rows.map key).Perm
      (keys.filter fun k => (last k).any fun r => !stale r) := by
    rw [List.perm_ext_iff_of_nodup (t.deleteWhere stale).nodup (hkeys.filter _)]
    intro k
    have hfound : (t.deleteWhere stale).find? k = (last k).filter fun r => !stale r := by
      rw [Table.find?_deleteWhere, (h k).filter]
    rw [List.mem_filter, List.mem_map, Option.any_eq_true]
    constructor
    · rintro ⟨r, hr, hk⟩
      rw [Table.find?_eq_some_iff.mpr ⟨hr, hk⟩, eq_comm, Option.filter_eq_some_iff] at hfound
      exact ⟨hlast k r hfound.1, r, hfound.1, hfound.2⟩
    · rintro ⟨-, r, hr, hlive⟩
      rw [hr, Option.filter_some, if_pos hlive] at hfound
      exact ⟨r, Table.find?_eq_some_iff.mp hfound⟩
  rw [← hsame.length_eq, List.length_map]

end Sweeping
