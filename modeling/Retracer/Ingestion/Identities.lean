import Retracer.Ingestion.RpcBlock
import Retracer.Storage.BlockActions

/-! # Signatures as identities

An action of the node's RPC is stored under its signature, and under its position in the
block when it has none. A position contains a colon, so the two never meet. A signature that
is the empty text counts as one.
-/

namespace Retracer

open KeyedTable

/-! ## Positions -/

/-- `height:index`. -/
def position (height : Int) (index : Nat) : String := toString height ++ ":" ++ toString index

theorem toString_nat_injective {i j : Nat} (h : toString i = toString j) : i = j := by
  have hdigits : Nat.toDigits 10 i = Nat.toDigits 10 j := by
    rw [← Nat.toList_repr, ← Nat.toList_repr]
    exact congrArg String.toList h
  rw [← Nat.ofDigitChars_ten_toDigits (n := i), hdigits, Nat.ofDigitChars_ten_toDigits]

theorem position_injective {height : Int} {i j : Nat} (h : position height i = position height j) :
    i = j :=
  toString_nat_injective ((String.append_right_inj _).mp h)

theorem colon_mem_position (height : Int) (index : Nat) : ':' ∈ (position height index).toList := by
  simp [position]

/-! ## The identities of a block -/

namespace RpcBlock

/-- The signatures that are not empty. -/
def signatures (block : RpcBlock) : List String :=
  (block.actions.filterMap (·.signature)).filter (· ≠ "")

theorem actionHashes_indexable (block : RpcBlock) :
    block.indexable.actionHashes = block.actions.zipIdx.map fun entry =>
      entry.1.signature.getD (position block.height entry.2) := by
  simp only [IndexableBlock.actionHashes, indexable, List.zipIdx_map, List.map_map]
  rfl

theorem signatures_eq {block : RpcBlock} (h : ∀ a ∈ block.actions, a.signature ≠ some "") :
    block.signatures = block.actions.filterMap (·.signature) := by
  rw [signatures, List.filter_eq_self]
  intro s hs
  obtain ⟨a, ha, hsome⟩ := List.mem_filterMap.mp hs
  rw [decide_eq_true_eq]
  rintro rfl
  exact h a ha hsome

end RpcBlock

/-- A signature without a colon, or the position where there is none. -/
theorem identity_ne {height : Int} {i j : Nat} (hij : i ≠ j) {s t : Option String}
    (hst : ∀ u, s = some u → t ≠ some u) (hs : ∀ u, s = some u → ':' ∉ u.toList)
    (ht : ∀ u, t = some u → ':' ∉ u.toList) :
    s.getD (position height i) ≠ t.getD (position height j) := by
  intro heq
  cases s with
  | none =>
      cases t with
      | none => exact hij (position_injective heq)
      | some u =>
          have hposition : position height i = u := heq
          exact ht u rfl (hposition ▸ colon_mem_position height i)
  | some u =>
      cases t with
      | none =>
          have hposition : u = position height j := heq
          exact hs u rfl (hposition ▸ colon_mem_position height j)
      | some v =>
          have huv : u = v := heq
          exact hst u rfl (huv ▸ rfl)

theorem nodup_identities (height : Int) {actions : List RpcAction} (k : Nat)
    (hdistinct : (actions.filterMap (·.signature)).Nodup)
    (hcolon : ∀ a ∈ actions, ∀ s, a.signature = some s → ':' ∉ s.toList) :
    ((actions.zipIdx k).map fun entry =>
      entry.1.signature.getD (position height entry.2)).Nodup := by
  induction actions generalizing k with
  | nil => exact List.nodup_nil
  | cons a actions ih =>
      have hrest : (actions.filterMap (·.signature)).Nodup :=
        hdistinct.sublist (((List.sublist_cons_self a actions).filterMap _))
      have hnew : ∀ b ∈ actions, ∀ s, a.signature = some s → b.signature ≠ some s := by
        intro b hb s hsig hsig'
        rw [List.filterMap_cons_some hsig] at hdistinct
        exact (List.nodup_cons.mp hdistinct).1 (List.mem_filterMap.mpr ⟨b, hb, hsig'⟩)
      rw [List.zipIdx_cons, List.map_cons, List.nodup_cons]
      refine ⟨?_, ih (k + 1) hrest fun b hb => hcolon b (List.mem_cons_of_mem _ hb)⟩
      intro hmem
      obtain ⟨⟨b, j⟩, hb, heq⟩ := List.mem_map.mp hmem
      have hlater : k + 1 ≤ j := List.le_snd_of_mem_zipIdx hb
      have hin : b ∈ actions := List.fst_mem_of_mem_zipIdx hb
      exact identity_ne (by omega) (hnew b hin) (hcolon a List.mem_cons_self)
        (hcolon b (List.mem_cons_of_mem _ hin)) heq.symm

/-! ## No action is lost -/

section

variable [Postgres]

/-- The actions have identities of their own, so that a store without them gets a row for
each. -/
structure KeepsEveryAction (block : RpcBlock) : Prop where
  distinct : block.indexable.actionHashes.Nodup
  nonempty : "" ∉ block.indexable.actionHashes
  stored : ∀ (db db' : Database) (chainId : String) (extractor : AddressExtractor),
    (∀ hash ∈ block.indexable.actionHashes, (chainId, hash) ∉ db.actions.rows.map key) →
    insertBlock db chainId block.indexable extractor = some db' →
    ∃ rows, db'.actions.rows = db.actions.rows ++ rows ∧
      rows.map (·.indexInBlock) = List.range block.actions.length ∧
      rows.map (·.actionHash) = block.indexable.actionHashes

theorem keepsEveryAction_iff {block : RpcBlock} (hdistinct : block.signatures.Nodup)
    (hcolon : ∀ s ∈ block.signatures, ':' ∉ s.toList) :
    KeepsEveryAction block ↔ ∀ a ∈ block.actions, a.signature ≠ some "" := by
  constructor
  · intro h a ha hempty
    obtain ⟨k, hk⟩ := List.mem_iff_getElem?.mp ha
    apply h.nonempty
    rw [RpcBlock.actionHashes_indexable]
    exact List.mem_map.mpr ⟨(a, k), List.mk_mem_zipIdx_iff_getElem?.mpr hk, by rw [hempty]; rfl⟩
  · intro hne
    rw [RpcBlock.signatures_eq hne] at hdistinct hcolon
    have hnodup : block.indexable.actionHashes.Nodup := by
      rw [RpcBlock.actionHashes_indexable]
      apply nodup_identities block.height 0 hdistinct
      exact fun a ha s hsig => hcolon s (List.mem_filterMap.mpr ⟨a, ha, hsig⟩)
    refine ⟨hnodup, ?_, ?_⟩
    · rw [RpcBlock.actionHashes_indexable]
      intro hmem
      obtain ⟨⟨a, k⟩, ha, hempty⟩ := List.mem_map.mp hmem
      dsimp only at hempty
      cases hsig : a.signature with
      | none =>
          rw [hsig, Option.getD_none] at hempty
          have hcolon := colon_mem_position block.height k
          rw [hempty] at hcolon
          simp at hcolon
      | some s =>
          rw [hsig, Option.getD_some] at hempty
          exact hne a (List.fst_mem_of_mem_zipIdx ha) (hempty ▸ hsig)
    · intro db db' chainId extractor hnew hinsert
      obtain ⟨mid, hmid, hlast⟩ := Option.bind_eq_some_iff.mp hinsert
      cases hlast
      obtain ⟨writes, tokens, hw⟩ := written_of_insert hmid
      have hactions : db'.actions = db.actions.insertMissing
          (writes.actionsRows chainId block.indexable.height) := hw.rows .actions
      refine ⟨writes.actionsRows chainId block.indexable.height, ?_, ?_, ?_⟩
      · rw [hactions]
        exact rows_insertMissing_actions hw.build hnodup hnew
      · rw [indexes_actionsRows hw.build]
        simp [RpcBlock.indexable]
      · have hkeys := congrArg (List.map Prod.snd) (keys_actionsRows chainId hw.build)
        simpa [Function.comp_def, key] using hkeys

end

/-- One signature and one position. -/
def signedOnce : RpcBlock :=
  { RpcBlock.bare 0 "g" "" with
    actions := [⟨"alice", some "s1", .null⟩, ⟨"bob", none, .null⟩] }

theorem keepsEveryAction_iff_signed :
    @KeepsEveryAction .plain signedOnce ↔ ∀ a ∈ signedOnce.actions, a.signature ≠ some "" :=
  @keepsEveryAction_iff .plain signedOnce (by decide) (by decide)

/-- Two unsigned actions whose signatures are empty texts. -/
def unsignedTwice : RpcBlock :=
  { RpcBlock.bare 0 "g" "" with
    actions := [⟨"alice", some "", .null⟩, ⟨"bob", some "", .null⟩] }

theorem empty_signatures_collide :
    ¬ ∀ block : RpcBlock, block.signatures.Nodup → (∀ s ∈ block.signatures, ':' ∉ s.toList) →
      @KeepsEveryAction .plain block := by
  intro h
  have hkeeps := h unsignedTwice (by decide) (by decide)
  have htwice : ¬ unsignedTwice.indexable.actionHashes.Nodup := by decide
  exact htwice (@KeepsEveryAction.distinct .plain _ hkeeps)

end Retracer
