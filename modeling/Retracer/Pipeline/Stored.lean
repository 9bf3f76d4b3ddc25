import Retracer.Indexing.Links
import Retracer.Pipeline.System

/-! # The store behind the reader

The links and the cursor over runs of both tasks, from any store that already has
them. Both fail through one state: a rollback onto a height without a row, after
which the loop has no tip and the cursor names nothing.
-/

namespace Retracer

open Execution RpcBlock

section

variable {c : ChainConfig} [Postgres] [SerdeJson] {db : Database} {as : List SystemAction}
  {t : System}

/-- Stored neighbours are hash-linked as long as a block handled without a tip would
have passed the parent check. -/
theorem stored_neighbours_linked (hcovers : CursorCovers db c.chainId)
    (hlinked : Linked (headerAt db c.chainId))
    (hfits : Always (systemStep c) (OnIndex (FitsWithoutTip c)) (.start c db) as)
    (hrun : exec (systemStep c) (.start c db) as = some t) :
    Linked (headerAt t.index.db c.chainId) := by
  have hend : LinksKept c t.index :=
    index_invariant (fun _ _ _ h hs hC => linksKept_step h hs hC)
      (linksKept_start hcovers hlinked) hfits hrun
  exact hend.linked_stored

/-- The cursor names the highest stored block as long as rollbacks land on one. -/
theorem cursor_names_highest_block (hcovers : CursorCovers db c.chainId)
    (hnames : CursorNamesTop db c.chainId)
    (hlands : Always (systemStep c) (OnIndex (RollbackLands c)) (.start c db) as)
    (hrun : exec (systemStep c) (.start c db) as = some t) :
    CursorNamesTop t.index.db c.chainId := by
  have hend := index_invariant
    (I := fun s => CursorCovers s.db c.chainId ∧ CursorNamesTop s.db c.chainId)
    (fun _ _ _ h hs hC => cursorStored_step h hs hC) ⟨hcovers, hnames⟩ hlands hrun
  exact hend.2

end

/-! ## A branch switch that the reader follows -/

/-- Blocks 0 and 1 are stored, then the node serves another branch from height 2 and,
once asked, from height 1 and 0. -/
def followedSwitch : List SystemAction :=
  servePage 1 none [bare 0 "a0" "", bare 1 "a1" "a0"] ++ handleAll 2 ++ [.endChunk true true] ++
    servePage 2 none [bare 2 "b2" "b1"] ++ handleAll 1 ++
    [.rollback .done, .sendRewind, .endChunk true true, .takeRewind] ++
    servePage 2 none [bare 1 "b1" "a0", bare 2 "b2" "b1"] ++ handleAll 2 ++ [.endChunk true true]

theorem stored_neighbours_linked_switch :
    ∃ t, systemRun 5 followedSwitch = some t ∧ Linked (headerAt t.index.db "chain") := by
  refine ⟨(systemRun 5 followedSwitch).get (by decide), (Option.some_get _).symm, ?_⟩
  exact @stored_neighbours_linked (.bare 5) .plain .plain .empty followedSwitch _
    (cursorCovers_empty _) (fun _ _ _ h => nomatch h) (by decide) (Option.some_get _).symm

theorem cursor_names_highest_block_switch :
    ∃ t, systemRun 5 followedSwitch = some t ∧ CursorNamesTop t.index.db "chain" := by
  refine ⟨(systemRun 5 followedSwitch).get (by decide), (Option.some_get _).symm, ?_⟩
  exact @cursor_names_highest_block (.bare 5) .plain .plain .empty followedSwitch _
    (cursorCovers_empty _) (fun _ => rfl) (by decide) (Option.some_get _).symm

/-! ## Rollbacks onto missing rows -/

/-- The fork at height 2 peels block 1, the queued block 3 is a gap and is accepted, and
the fork at height 4 rolls back to height 2, where nothing is stored. The refetched
block 1 then finds no tip and goes in on top of block 0, which is not its parent. -/
def unlinkedRefetch : List SystemAction :=
  servePage 1 none [bare 0 "a0" "", bare 1 "a1" "a0"] ++ handleAll 2 ++ [.endChunk true true] ++
    servePage 3 none [bare 2 "b2" "b1", bare 3 "b3" "b2"] ++
    servePage 4 none [bare 4 "c4" "c3"] ++
    [.recvMany 3, .handle true, .rollback .done, .sendRewind, .takeRewind] ++
    servePage 1 none [bare 1 "c1" "c0"] ++
    [.handle true, .handle true, .rollback .done, .sendRewind, .endChunk true true] ++
    handleAll 1 ++ [.endChunk true true]

theorem stored_neighbours_unlinked :
    ∃ t, systemRun 5 unlinkedRefetch = some t ∧ ¬ Linked (headerAt t.index.db "chain") := by
  refine ⟨(systemRun 5 unlinkedRefetch).get (by decide), (Option.some_get _).symm, fun h => ?_⟩
  have hmatch : hashesMatch "c0" "a0" := h 0 ⟨"a0", ""⟩ ⟨"c1", "c0"⟩ (by decide) (by decide)
  exact absurd hmatch (by decide)

/-- The fork at height 1 empties the store, the queued block 2 is accepted without a tip,
and the fork at height 3 sets the cursor to height 1. -/
def danglingCursor : List SystemAction :=
  servePage 0 none [bare 0 "a0" ""] ++ handleAll 1 ++ [.endChunk true true] ++
    servePage 2 none [bare 1 "b1" "b0", bare 2 "b2" "b1"] ++
    servePage 3 none [bare 3 "c3" "c2"] ++
    [.recvMany 3, .handle true, .rollback .done, .sendRewind, .handle true, .handle true,
      .rollback .done]

theorem cursor_names_no_block :
    ∃ t, systemRun 5 danglingCursor = some t ∧ ¬ CursorNamesTop t.index.db "chain" := by
  refine ⟨(systemRun 5 danglingCursor).get (by decide), (Option.some_get _).symm, fun h => ?_⟩
  have hcursor : getCursor ((systemRun 5 danglingCursor).get (by decide)).index.db "chain" =
      some 1 := by decide
  simp only [CursorNamesTop, hcursor] at h
  exact h.1 (by decide)

end Retracer
