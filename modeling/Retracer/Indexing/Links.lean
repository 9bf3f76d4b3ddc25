import Retracer.Indexing.Transition

/-! # Links between stored neighbours and the cursor on top

Two properties of the store that the loop is to keep whatever blocks it is fed. Both
are stated of the headers the store would have once the batch is committed: a flush
then changes nothing, and losing a batch only takes headers away.
-/

namespace Retracer

open Execution

/-- Neighbours that are both there are hash-linked. -/
def Linked (headers : Int → Option Header) : Prop :=
  ∀ n lower upper, headers n = some lower → headers (n + 1) = some upper →
    hashesMatch upper.parentHash lower.hash

theorem Linked.mono {f g : Int → Option Header} (h : Linked f)
    (hsub : ∀ n header, g n = some header → f n = some header) : Linked g :=
  fun n lower upper hl hu => h n lower upper (hsub n lower hl) (hsub (n + 1) upper hu)

/-- The headers once the batch is committed. -/
def pendingHeader (c : ChainConfig) (s : IndexState) (n : Int) : Option Header :=
  (headerAt s.db c.chainId n).or
    ((s.batch.find? fun b => (b.height : Int) = n).map IndexableBlock.header)

section

variable {c : ChainConfig} {s : IndexState} {block : IndexableBlock}

theorem pendingHeader_of_batch_nil (h : s.batch = []) (n : Int) :
    pendingHeader c s n = headerAt s.db c.chainId n := by
  simp [pendingHeader, h]

theorem pendingHeader_of_stored {n : Int} {header : Header}
    (h : headerAt s.db c.chainId n = some header) : pendingHeader c s n = some header := by
  simp [pendingHeader, h]

theorem pendingHeader_accept (n : Int) :
    pendingHeader c (s.accept block) n = (pendingHeader c s n).or
      (if (block.height : Int) = n then some block.header else none) := by
  simp only [pendingHeader, IndexState.accept, List.find?_append, Option.map_or, Option.or_assoc,
    List.find?_singleton, decide_eq_true_eq]
  split <;> rfl

/-- A header that lies above all others and fits on the one below keeps the links. -/
theorem linked_accept (h : Linked (pendingHeader c s))
    (htop : ∀ n, (block.height : Int) ≤ n → pendingHeader c s n = none)
    (hlink : ∀ header, pendingHeader c s (block.height - 1) = some header →
      hashesMatch block.parentHash header.hash) :
    Linked (pendingHeader c (s.accept block)) := by
  intro n lower upper hl hu
  rw [pendingHeader_accept] at hl hu
  by_cases hn : (block.height : Int) = n
  · rw [htop (n + 1) (by omega), if_neg (by omega)] at hu
    cases hu
  · rw [if_neg hn, Option.or_none] at hl
    by_cases hup : (block.height : Int) = n + 1
    · rw [htop (n + 1) (by omega), if_pos hup, Option.none_or, Option.some.injEq] at hu
      subst hu
      have hbelow : (block.height : Int) - 1 = n := by omega
      exact hlink lower (hbelow ▸ hl)
    · rw [if_neg hup, Option.or_none] at hu
      exact h n lower upper hl hu

/-- What holds of the headers and the tip, pending or not. -/
structure LinksKept (c : ChainConfig) (s : IndexState) : Prop where
  covers : CursorCovers s.db c.chainId
  linked : Linked (pendingHeader c s)
  top : ∀ tip, s.tip = some tip → ∀ n, tip.height < n → pendingHeader c s n = none
  atTip : ∀ tip header, s.tip = some tip → pendingHeader c s tip.height = some header →
    header.hash = tip.hash
  idle : s.tip = none → s.batch = []
  rolling : ∀ target episode, s.pc = .rollingBack target episode → s.batch = []

theorem LinksKept.linked_stored (h : LinksKept c s) : Linked (headerAt s.db c.chainId) :=
  h.linked.mono fun _ _ hstored => pendingHeader_of_stored hstored

/-- Fewer headers, the same tip. -/
theorem LinksKept.of_subset {s' : IndexState} (h : LinksKept c s)
    (hcovers : CursorCovers s'.db c.chainId)
    (hsub : ∀ n header, pendingHeader c s' n = some header → pendingHeader c s n = some header)
    (htip : s'.tip = s.tip) (hbatch : s'.batch = s.batch ∨ s'.batch = [])
    (hpc : ∀ target episode, s'.pc = .rollingBack target episode → s'.batch = []) :
    LinksKept c s' := by
  refine ⟨hcovers, h.linked.mono hsub, ?_, ?_, ?_, hpc⟩
  · intro tip ht n hn
    by_contra hsome
    obtain ⟨header, hheader⟩ := Option.ne_none_iff_exists'.mp hsome
    cases (h.top tip (htip ▸ ht) n hn).symm.trans (hsub n header hheader)
  · intro tip header ht hheader
    exact h.atTip tip header (htip ▸ ht) (hsub _ _ hheader)
  · intro ht
    rcases hbatch with hsame | hnil
    · exact hsame.trans (h.idle (htip ▸ ht))
    · exact hnil

/-- The tip is the durable one or none, and nothing is pending. -/
theorem linksKept_of_durable (hcovers : CursorCovers s.db c.chainId)
    (hlinked : Linked (headerAt s.db c.chainId)) (hbatch : s.batch = [])
    (htip : ∀ tip, s.tip = some tip → durableTip s.db c.chainId = some tip) :
    LinksKept c s := by
  have hsame : pendingHeader c s = headerAt s.db c.chainId :=
    funext fun n => pendingHeader_of_batch_nil hbatch n
  refine ⟨hcovers, hsame ▸ hlinked, ?_, ?_, fun _ => hbatch, fun _ _ _ => hbatch⟩
  · intro tip ht n hn
    obtain ⟨hcursor, _⟩ := durableTip_eq_some_iff.mp (htip tip ht)
    rw [hsame]
    by_contra hstored
    obtain ⟨_, last, hlast, hle⟩ := hcovers n hstored
    cases hcursor.symm.trans hlast
    omega
  · intro tip header ht hheader
    obtain ⟨_, hhash⟩ := durableTip_eq_some_iff.mp (htip tip ht)
    rw [hsame] at hheader
    simpa [hheader] using hhash

theorem LinksKept.inbox (h : LinksKept c s) (rest : List IndexableBlock) :
    LinksKept c { s with inbox := rest } :=
  ⟨h.covers, h.linked, h.top, h.atTip, h.idle, h.rolling⟩

/-- Without a tip the parent is not checked; the condition says that it would fit. -/
def FitsWithoutTip (c : ChainConfig) (s : IndexState) (a : IndexAction) (_ : IndexState) : Prop :=
  ∀ block ∈ s.handling a, s.tip = none →
    (∀ n ∈ storedHeights s.db c.chainId, n < block.height) ∧
      ∀ header ∈ headerAt s.db c.chainId (block.height - 1),
        hashesMatch block.parentHash header.hash

instance (s : IndexState) (a : IndexAction) (s' : IndexState) :
    Decidable (FitsWithoutTip c s a s') := by
  unfold FitsWithoutTip
  infer_instance

theorem linksKept_accept (h : LinksKept c s) (hpc : s.pc = .draining)
    (hv : (s.verdict c block).isAccepted = true)
    (hfits : s.tip = none → (∀ n ∈ storedHeights s.db c.chainId, n < block.height) ∧
      ∀ header ∈ headerAt s.db c.chainId (block.height - 1),
        hashesMatch block.parentHash header.hash) :
    LinksKept c (s.accept block) := by
  have hnew : (∀ n, (block.height : Int) ≤ n → pendingHeader c s n = none) ∧
      ∀ header, pendingHeader c s (block.height - 1) = some header →
        hashesMatch block.parentHash header.hash := by
    rcases tip_of_accepted hv with hnone | ⟨tip, htip, ⟨hnext, hmatch⟩ | ⟨_, hbeyond⟩⟩
    · have hsame := pendingHeader_of_batch_nil (c := c) (h.idle hnone)
      obtain ⟨hall, hbelow⟩ := hfits hnone
      constructor
      · intro n hn
        rw [hsame]
        by_contra hstored
        have := hall n (mem_storedHeights.mpr hstored)
        omega
      · intro header hheader
        rw [hsame] at hheader
        exact hbelow header hheader
    · constructor
      · exact fun n hn => h.top tip htip n (by omega)
      · intro header hheader
        have hat : (block.height : Int) - 1 = tip.height := by omega
        rw [h.atTip tip header htip (hat ▸ hheader)]
        exact hmatch
    · constructor
      · exact fun n hn => h.top tip htip n (by omega)
      · intro header hheader
        cases (h.top tip htip _ (by omega)).symm.trans hheader
  obtain ⟨htop, hlink⟩ := hnew
  refine ⟨h.covers, linked_accept h.linked htop hlink, ?_, ?_, by simp [IndexState.accept],
    by simp [IndexState.accept, hpc]⟩
  · intro tip ht n hn
    simp only [IndexState.accept, Option.some.injEq] at ht
    subst ht
    simp only at hn
    rw [pendingHeader_accept, htop n (by omega), if_neg (by omega), Option.none_or]
  · intro tip header ht hheader
    simp only [IndexState.accept, Option.some.injEq] at ht
    subst ht
    rw [pendingHeader_accept, htop _ (Int.le_refl _), if_pos rfl, Option.none_or,
      Option.some.injEq] at hheader
    subst hheader
    rfl

/-- With nothing pending the program counter may be anything. -/
theorem LinksKept.withPc (h : LinksKept c s) (hbatch : s.batch = []) (pc : IndexPc) :
    LinksKept c { s with pc } :=
  ⟨h.covers, h.linked, h.top, h.atTip, h.idle, fun _ _ _ => hbatch⟩

variable [Postgres]

theorem linksKept_of_flushed {s₁ : IndexState} {commits ok : Bool} (h : LinksKept c s)
    (hf : Flushed c commits s ok s₁) : LinksKept c s₁ := by
  refine h.of_subset (hf.covers h.covers) ?_ hf.frame.1 (Or.inr hf.batch_nil)
    fun _ _ _ => hf.batch_nil
  intro n header hheader
  rw [pendingHeader_of_batch_nil hf.batch_nil] at hheader
  rcases hf.headerAt_eq with hsame | hadd
  · rw [hsame] at hheader
    exact pendingHeader_of_stored hheader
  · rwa [hadd] at hheader

theorem linksKept_step {s' : IndexState} {a : IndexAction} (h : LinksKept c s)
    (hs : indexStep c s a = some s') (hC : FitsWithoutTip c s a s') : LinksKept c s' := by
  have hfits : ∀ {block rest commits}, a = .handle commits → s.inbox = block :: rest →
      s.tip = none → (∀ n ∈ storedHeights s.db c.chainId, n < block.height) ∧
        ∀ header ∈ headerAt s.db c.chainId (block.height - 1),
          hashesMatch block.parentHash header.hash := by
    intro block rest commits ha hin htip
    subst ha
    exact hC block (IndexState.handling_handle hin) htip
  cases transition_of_step hs with
  | publish _ => exact ⟨h.covers, h.linked, h.top, h.atTip, h.idle, h.rolling⟩
  | received _ _ _ => exact ⟨h.covers, h.linked, h.top, h.atTip, h.idle, by simp⟩
  | closed _ hf => exact (linksKept_of_flushed h hf).withPc hf.batch_nil _
  | stale _ _ _ => exact h.inbox _
  | @accepted block rest _ hpc hin hv _ =>
      exact linksKept_accept (h.inbox rest) hpc hv (hfits rfl hin)
  | @acceptedFull _ block rest _ _ hpc hin hv _ hf =>
      exact linksKept_of_flushed (linksKept_accept (h.inbox rest) hpc hv (hfits rfl hin)) hf
  | @forked _ _ rest _ _ _ _ _ _ hf =>
      exact (linksKept_of_flushed (h.inbox rest) hf).withPc hf.batch_nil _
  | @refused _ _ rest _ _ _ _ _ hf => exact linksKept_of_flushed (h.inbox rest) hf
  | rollbackFailed hpc => exact h.withPc (h.rolling _ _ hpc) _
  | @lookupFailed target episode hpc _ =>
      have hb := h.rolling _ _ hpc
      refine h.of_subset (h.covers.rollbackTo _) ?_ rfl (Or.inl rfl) (fun _ _ _ => hb)
      intro n header hheader
      rw [pendingHeader_of_batch_nil hb]
      rw [pendingHeader_of_batch_nil (by exact hb)] at hheader
      exact headerAt_of_rollbackTo hheader
  | rolledBack hpc =>
      refine linksKept_of_durable (h.covers.rollbackTo _) ?_ (h.rolling _ _ hpc) ?_
      · exact h.linked_stored.mono fun _ _ => headerAt_of_rollbackTo
      · intro tip htip
        rwa [durableTip_rollbackTo] at htip
  | rewindSent _ => exact ⟨h.covers, h.linked, h.top, h.atTip, h.idle, by simp⟩
  | chunkDone _ _ hf => exact (linksKept_of_flushed h hf).withPc hf.batch_nil _
  | @chunkLost s₁ _ readable _ _ hf =>
      have hflushed := linksKept_of_flushed h hf
      refine linksKept_of_durable hflushed.covers hflushed.linked_stored hf.batch_nil ?_
      intro tip htip
      cases readable with
      | false => cases htip
      | true => exact htip

omit [Postgres] in
theorem linksKept_start {db : Database} (hcovers : CursorCovers db c.chainId)
    (hlinked : Linked (headerAt db c.chainId)) : LinksKept c (.start c db) :=
  linksKept_of_durable hcovers hlinked rfl fun _ htip => (start_tip db).symm.trans htip

end

/-! ## The cursor -/

/-- The cursor is at the highest stored block; without one nothing is stored. -/
def CursorNamesTop (db : Database) (chainId : String) : Prop :=
  match getCursor db chainId with
  | some last => headerAt db chainId last ≠ none ∧ ∀ n, last < n → headerAt db chainId n = none
  | none => ∀ n, headerAt db chainId n = none

theorem cursorNamesTop_iff {db : Database} {chainId : String} (hcovers : CursorCovers db chainId) :
    CursorNamesTop db chainId ↔
      ∀ last, getCursor db chainId = some last → headerAt db chainId last ≠ none := by
  unfold CursorNamesTop
  cases hcursor : getCursor db chainId with
  | none =>
      refine ⟨fun _ _ h => (Option.some_ne_none _ h.symm).elim, fun _ n => ?_⟩
      by_contra hstored
      obtain ⟨_, last, hlast, _⟩ := hcovers n hstored
      cases hcursor.symm.trans hlast
  | some last =>
      constructor
      · rintro ⟨hstored, _⟩ last' h
        cases h
        exact hstored
      · intro h
        refine ⟨h last rfl, fun n hn => ?_⟩
        by_contra hstored
        obtain ⟨_, last', hlast, hle⟩ := hcovers n hstored
        cases hcursor.symm.trans hlast
        omega

/-- The height a step rolls back to. -/
def IndexState.rollingTo (s : IndexState) : IndexAction → Option Int
  | .rollback .failed => none
  | .rollback _ =>
      match s.pc with
      | .rollingBack target _ => some target
      | _ => none
  | _ => none

/-- A rollback to a height at or above zero lands on a stored block. -/
def RollbackLands (c : ChainConfig) (s : IndexState) (a : IndexAction) (_ : IndexState) : Prop :=
  ∀ target ∈ s.rollingTo a, 0 ≤ target → headerAt s.db c.chainId target ≠ none

instance (c : ChainConfig) (s : IndexState) (a : IndexAction) (s' : IndexState) :
    Decidable (RollbackLands c s a s') := by
  unfold RollbackLands
  infer_instance

section

variable [Postgres] {c : ChainConfig}

theorem cursorStored_insertBlocks {db db' : Database} {chainId : String}
    {extractor : AddressExtractor} {blocks : List IndexableBlock}
    (hstored : ∀ last, getCursor db chainId = some last → headerAt db chainId last ≠ none)
    (hne : blocks ≠ []) (hdb : insertBlocks db chainId blocks extractor = some db') :
    ∀ last, getCursor db' chainId = some last → headerAt db' chainId last ≠ none := by
  intro last hlast
  obtain ⟨last', hlast', _, _, hattained⟩ := raiseCursor_foldl_spec (getCursor db chainId) hne
  rw [getCursor_insertBlocks hdb, hlast', Option.some.injEq] at hlast
  subst hlast
  rw [headerAt_insertBlocks hdb, ne_eq, Option.or_eq_none_iff, not_and_or]
  rcases hattained with hold | ⟨b, hb, hheight⟩
  · exact Or.inl (hstored last' hold)
  · refine Or.inr ?_
    rw [Option.map_eq_none_iff, List.find?_eq_none]
    exact fun hall => hall b hb (by simpa using hheight)

theorem cursorStored_step {s s' : IndexState} {a : IndexAction}
    (h : CursorCovers s.db c.chainId ∧ CursorNamesTop s.db c.chainId)
    (hs : indexStep c s a = some s') (hC : RollbackLands c s a s') :
    CursorCovers s'.db c.chainId ∧ CursorNamesTop s'.db c.chainId := by
  obtain ⟨hcovers, hnames⟩ := h
  rw [cursorNamesTop_iff hcovers] at hnames
  rcases db_of_transition (transition_of_step hs) with
    hsame | ⟨blocks, hne, hdb⟩ | ⟨target, episode, reply, ha, hreply, hpc, hdb⟩
  · rw [hsame]
    exact ⟨hcovers, (cursorNamesTop_iff hcovers).mpr hnames⟩
  · have hcovers' := hcovers.insertBlocks hdb
    exact ⟨hcovers', (cursorNamesTop_iff hcovers').mpr (cursorStored_insertBlocks hnames hne hdb)⟩
  · have hcovers' := hcovers.rollbackTo target
    rw [hdb]
    refine ⟨hcovers', (cursorNamesTop_iff hcovers').mpr fun last hlast => ?_⟩
    rw [getCursor_rollbackTo] at hlast
    split at hlast
    · cases hlast
    · next hnonneg =>
        cases hlast
        rw [headerAt_rollbackTo, if_neg (by omega)]
        subst ha
        have htarget : s.rollingTo (.rollback reply) = some target := by
          cases reply with
          | failed => exact absurd rfl hreply
          | lookupFailed => simp [IndexState.rollingTo, hpc]
          | done => simp [IndexState.rollingTo, hpc]
        exact hC target htarget (by omega)

end

end Retracer
