import Mathlib.Data.List.Chain
import Retracer.Pipeline.System

/-! # Chains, and stores that hold one

A node serves a hash-linked chain from height 0. `Stores` says that the database
holds exactly the first blocks of such a chain; batches that continue it and
rollbacks keep that shape.
-/

namespace Retracer

/-! ## Lists of headers -/

/-- Numbered from zero. -/
def Indexed (L : List Core) : Prop := ∀ i (h : i < L.length), L[i].1 = i

instance (L : List Core) : Decidable (Indexed L) := Nat.decidableBallLT _ _

/-- Every block names the one before as its parent. -/
def Joined (L : List Core) : Prop :=
  L.IsChain fun lower upper => hashesMatch upper.2.parentHash lower.2.hash

instance (L : List Core) : Decidable (Joined L) :=
  inferInstanceAs (Decidable (L.IsChain fun lower upper =>
    hashesMatch upper.2.parentHash lower.2.hash))

/-- The tip of an index that holds these blocks. -/
def tipOf (L : List Core) : Option Tip := L.getLast?.map fun core => ⟨core.1, core.2.hash⟩

section

variable {L T : List Core} {core : Core}

theorem Indexed.getElem? (h : Indexed L) {i : Nat} (hi : L[i]? = some core) : core.1 = i := by
  obtain ⟨hlt, rfl⟩ := List.getElem?_eq_some_iff.mp hi
  exact h i hlt

theorem Indexed.initial (h : Indexed T) (hp : L <+: T) : Indexed L := by
  obtain ⟨rest, rfl⟩ := hp
  intro i hi
  have hat := h i (by simp; omega)
  rwa [List.getElem_append_left hi] at hat

theorem Indexed.of_append (h : Indexed (L ++ core :: T)) : core.1 = L.length :=
  h.getElem? (by simp)

theorem Joined.initial (h : Joined T) (hp : L <+: T) : Joined L := by
  obtain ⟨rest, rfl⟩ := hp
  exact (List.isChain_append.mp h).1

theorem Joined.fits (h : Joined L) {i : Nat} {lower upper : Core} (hl : L[i]? = some lower)
    (hu : L[i + 1]? = some upper) : hashesMatch upper.2.parentHash lower.2.hash := by
  obtain ⟨_, rfl⟩ := List.getElem?_eq_some_iff.mp hl
  obtain ⟨hlt, rfl⟩ := List.getElem?_eq_some_iff.mp hu
  exact List.isChain_iff_getElem.mp h i hlt

theorem Joined.snoc (h : Joined L)
    (hfit : ∀ lower, L.getLast? = some lower → hashesMatch core.2.parentHash lower.2.hash) :
    Joined (L ++ [core]) := by
  refine List.isChain_append.mpr ⟨h, List.isChain_singleton _, ?_⟩
  intro lower hlower upper hupper
  cases hupper
  exact hfit lower hlower

@[simp] theorem tipOf_snoc : tipOf (L ++ [core]) = some ⟨core.1, core.2.hash⟩ := by
  simp [tipOf]

theorem tipOf_eq_none_iff : tipOf L = none ↔ L = [] := by
  simp [tipOf]

/-- The tip is the last block. -/
theorem tipOf_spec (h : Indexed L) {tip : Tip} (ht : tipOf L = some tip) :
    ∃ core, L.getLast? = some core ∧ L[L.length - 1]? = some core ∧ tip.hash = core.2.hash ∧
      tip.height + 1 = L.length := by
  unfold tipOf at ht
  obtain ⟨core, hlast, rfl⟩ := Option.map_eq_some_iff.mp ht
  have hat : L[L.length - 1]? = some core := List.getLast?_eq_getElem? ▸ hlast
  have hheight : core.1 = L.length - 1 := h.getElem? hat
  have hpos : L.length ≠ 0 := by
    intro hzero
    rw [List.length_eq_zero_iff.mp hzero] at hlast
    cases hlast
  refine ⟨core, hlast, hat, rfl, ?_⟩
  dsimp only
  omega

end

/-! ## Stores -/

/-- The database holds the blocks of `L` and no others, and its cursor is at the last. -/
structure Stores (db : Database) (chainId : String) (L : List Core) : Prop where
  header : ∀ n : Int, headerAt db chainId n = if n < 0 then none else L[n.toNat]?.map (·.2)
  cursor : getCursor db chainId = if L = [] then none else some ((L.length : Int) - 1)

theorem stores_empty (chainId : String) : Stores Database.empty chainId [] :=
  ⟨fun n => by simp, rfl⟩

section

variable {db db' : Database} {chainId : String} {L : List Core}

theorem Stores.headerAt_ne_none (h : Stores db chainId L) {n : Int} :
    headerAt db chainId n ≠ none ↔ 0 ≤ n ∧ n < L.length := by
  rw [h.header n]
  by_cases hneg : n < 0
  · simp [hneg]
  · simp [hneg]
    omega

theorem Stores.durableTip (h : Stores db chainId L) (hi : Indexed L) :
    durableTip db chainId = tipOf L := by
  cases htip : tipOf L with
  | none =>
      have hnil := tipOf_eq_none_iff.mp htip
      simp [Retracer.durableTip, h.cursor, hnil]
  | some tip =>
      obtain ⟨core, hlast, hat, hhash, hheight⟩ := tipOf_spec hi htip
      have hne : L ≠ [] := by
        rintro rfl
        cases htip
      have hpos : 0 < L.length := List.length_pos_of_ne_nil hne
      rw [durableTip_eq_some_iff]
      constructor
      · rw [h.cursor, if_neg hne, Option.some.injEq]
        omega
      · have hnat : tip.height.toNat = L.length - 1 := by omega
        have hnonneg : ¬ tip.height < 0 := by omega
        rw [h.header, if_neg hnonneg, hnat, hat, hhash]
        rfl

theorem Stores.rollbackTo (h : Stores db chainId L) {k : Nat} (hk : k ≤ L.length) :
    Stores (rollbackTo db chainId ((k : Int) - 1)).1 chainId (L.take k) := by
  constructor
  · intro n
    rw [headerAt_rollbackTo, h.header n]
    by_cases hneg : n < 0
    · simp [hneg]
    · rw [if_neg hneg, if_neg hneg, List.getElem?_take]
      by_cases hbelow : n.toNat < k
      · rw [if_pos hbelow, if_neg (by omega)]
      · rw [if_neg hbelow, if_pos (by omega)]
        rfl
  · rw [getCursor_rollbackTo]
    cases k with
    | zero => rfl
    | succ k =>
        have hne : L.take (k + 1) ≠ [] := by
          apply List.ne_nil_of_length_pos
          rw [List.length_take_of_le hk]
          omega
        have hnonneg : ¬ ((k + 1 : Nat) : Int) - 1 < 0 := by omega
        rw [if_neg hnonneg, if_neg hne, List.length_take_of_le hk]

theorem stores_start {c : ChainConfig} (h : Stores db c.chainId L) (hi : Indexed L) :
    (IndexState.start c db).tip = tipOf L := by
  rw [start_tip, h.durableTip hi]

variable [Postgres] {extractor : AddressExtractor}

theorem Stores.insertBlockInTx {block : IndexableBlock} (h : Stores db chainId L)
    (hi : Indexed (L ++ [block.core]))
    (hdb : insertBlockInTx chainId extractor db block = some db') :
    Stores db' chainId (L ++ [block.core]) := by
  have hheight : block.height = L.length := hi.of_append
  obtain ⟨hheaders, hcursor⟩ := insertBlockInTx_spec hdb
  constructor
  · intro n
    rw [hheaders n, h.header n, hheight]
    by_cases hneg : n < 0
    · have hother : ¬ ((L.length : Nat) : Int) = n := by omega
      rw [if_pos hneg, if_pos hneg, if_neg hother]
      rfl
    · rw [if_neg hneg, if_neg hneg]
      by_cases hold : n.toNat < L.length
      · rw [if_neg (by omega), List.getElem?_append_left hold, Option.or_none]
      · rw [List.getElem?_eq_none (by omega), List.getElem?_append_right (by omega)]
        by_cases hat : (L.length : Int) = n
        · have hzero : n.toNat - L.length = 0 := by omega
          rw [if_pos hat, hzero]
          rfl
        · rw [if_neg hat, List.getElem?_eq_none]
          · rfl
          · rw [List.length_singleton]
            omega
  · have hlen : (((L ++ [block.core]).length : Nat) : Int) - 1 = L.length := by simp
    have hne : L ++ [block.core] ≠ [] := by simp
    rw [hcursor, h.cursor, hheight, if_neg hne, hlen]
    by_cases hnil : L = []
    · simp [hnil, raiseCursor]
    · have hmax : max ((L.length : Int) - 1) L.length = L.length := by omega
      rw [if_neg hnil, raiseCursor, Option.elim_some, hmax]

/-- A batch that continues the stored chain. -/
theorem Stores.insertBlocks {blocks : List IndexableBlock} (h : Stores db chainId L)
    (hi : Indexed (L ++ blocks.map IndexableBlock.core))
    (hdb : insertBlocks db chainId blocks extractor = some db') :
    Stores db' chainId (L ++ blocks.map IndexableBlock.core) := by
  induction blocks generalizing db L with
  | nil =>
      cases hdb
      simpa using h
  | cons block blocks ih =>
      rw [insertBlocks_cons, Option.bind_eq_some_iff] at hdb
      obtain ⟨mid, hmid, hrest⟩ := hdb
      rw [List.map_cons, List.append_cons] at hi ⊢
      have hone : Stores mid chainId (L ++ [block.core]) :=
        h.insertBlockInTx (hi.initial (List.prefix_append _ _)) hmid
      exact ih hone hi hrest

end

/-! ## The node -/

/-- A chain the node serves, from height 0. -/
structure NodeChain where
  blocks : List RpcBlock
  indexed : Indexed (blocks.map RpcBlock.core)
  joined : Joined (blocks.map RpcBlock.core)

def NodeChain.cores (chain : NodeChain) : List Core := chain.blocks.map RpcBlock.core

/-- The page that the node answers with. -/
def SystemAction.page : SystemAction → Option (List RpcBlock)
  | .answer (.page page) => some page
  | _ => none

/-- The node answers a page request with blocks of `chain` from the height asked for. -/
def Serves (chain : NodeChain) (w : System) (a : SystemAction) (_ : System) : Prop :=
  ∀ page ∈ a.page, page.map RpcBlock.core <+: chain.cores.drop w.reader.next

instance (chain : NodeChain) (w : System) (a : SystemAction) (w' : System) :
    Decidable (Serves chain w a w') := by
  unfold Serves
  infer_instance

end Retracer
