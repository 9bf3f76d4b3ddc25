import Retracer.Ingestion.Identities
import Retracer.Library.InTurn
import Retracer.Sse.Events
import Retracer.Storage.Positions
import Retracer.Webhooks.AtLeastOnce
import Retracer.Webhooks.Rearmed

/-! # Delivered in order

Events go out in the order of the chain, and a repeated one carries the headers of the first
time. A receiver that keeps one of each is left with a beginning of what the stored blocks owe
the hook: nothing is skipped, nothing comes before its turn. As long as nothing is rolled back
and the hook is not registered again, this survives restarts, refusals, failed statements and
commits in between.
-/

namespace Retracer

open KeyedTable Sorting Execution Traverse InTurn

/-! ## Names of deliveries -/

def Delivery.kind : Delivery → String
  | .action _ => eventAction
  | .dropped _ => eventDropped

/-- `x-retracer-event` and `x-retracer-id`. -/
def Delivery.name (d : Delivery) : String × String := (d.kind, d.id)

def Delivery.height : Delivery → Int
  | .action a => a.blockHeight
  | .dropped e => e.dropped.blockHeight

theorem colon_notMem_toString (n : Nat) : ':' ∉ (toString (n : Int)).toList := by
  intro hmem
  have hdigits : ':' ∈ Nat.toDigits 10 n := by
    rw [← Nat.toList_repr]
    exact hmem
  have hdigit := Nat.isDigit_of_mem_toDigits (by decide) (by decide) hdigits
  revert hdigit
  decide

/-- What stands before the first colon. -/
theorem takeWhile_text (n : Nat) (rest : String) :
    (toString (n : Int) ++ ":" ++ rest).toList.takeWhile (· ≠ ':') = (toString n).toList := by
  have hplain : ∀ c ∈ (toString (n : Int)).toList, c ≠ ':' := by
    rintro c hc rfl
    exact colon_notMem_toString n hc
  have hcolon : (":" : String).toList = [':'] := rfl
  rw [String.toList_append, String.toList_append, hcolon, List.append_assoc,
    List.takeWhile_append_of_pos (by simpa using hplain), List.singleton_append,
    List.takeWhile_cons_of_neg (by simp), List.append_nil]
  rfl

theorem height_of_text {m n : Nat} {x y : String}
    (h : toString (m : Int) ++ ":" ++ x = toString (n : Int) ++ ":" ++ y) : m = n := by
  have hlists := takeWhile_text m x
  rw [h, takeWhile_text] at hlists
  exact toString_nat_injective (String.toList_inj.mp hlists).symm

/-- Each id begins with its height. -/
theorem Delivery.exists_id (d : Delivery) :
    ∃ rest, d.id = toString d.height ++ ":" ++ rest := by
  cases d with
  | action a => exact ⟨_, rfl⟩
  | dropped e => exact ⟨_, rfl⟩

theorem Delivery.height_of_id {d e : Delivery} {m n : Nat} (hd : d.height = m) (he : e.height = n)
    (h : d.id = e.id) : m = n := by
  obtain ⟨x, hx⟩ := d.exists_id
  obtain ⟨y, hy⟩ := e.exists_id
  rw [hx, hy, hd, he] at h
  exact height_of_text h

/-! ## One stored block -/

section

variable [Collation] {chainId : String} {extractor : AddressExtractor} {db : Database} {n : Int}
  {row : BlockRow}

/-- What the block stored at a height owes the hook. -/
def owedAt (c : HookConfig) (hook : WebhooksRow) (db : Database) (height : Int) : List Delivery :=
  (storedBlock db c.chainId height).elim [] (deliveries hook c.extractor)

theorem height_of_storedBlock (h : storedBlock db chainId n = some row) :
    (∀ a ∈ row.actions, a.blockHeight = n) ∧ ∀ d ∈ row.dropped, d.blockHeight = n := by
  obtain ⟨b, _, hrest⟩ := Option.bind_eq_some_iff.mp h
  obtain ⟨actions, hactions, rfl⟩ := Option.map_eq_some_iff.mp hrest
  constructor
  · intro a ha
    obtain ⟨r, hr, hcolumns⟩ := (mem_mapM_iff hactions).mp ha
    have hin := (List.mem_filter.mp ((List.mem_insertionSort _).mp hr)).2
    simp only [within, Stamped.chainOf, Stamped.heightOf, decide_eq_true_eq] at hin
    rw [blockHeight_actionColumns hcolumns]
    omega
  · intro d hd
    obtain ⟨r, hr, rfl⟩ := List.mem_map.mp hd
    have hin := (List.mem_filter.mp ((List.mem_insertionSort _).mp hr)).2
    simp only [within, Stamped.chainOf, Stamped.heightOf, decide_eq_true_eq] at hin
    show r.blockHeight = n
    omega

theorem height_of_deliveries (h : storedBlock db chainId n = some row) {hook : WebhooksRow}
    {d : Delivery} (hd : d ∈ deliveries hook extractor row) : d.height = n := by
  obtain ⟨hactions, hdropped⟩ := height_of_storedBlock h
  unfold deliveries at hd
  rcases List.mem_append.mp hd with hin | hin
  · split at hin
    · obtain ⟨a, ha, rfl⟩ := List.mem_map.mp hin
      exact hactions a (List.mem_of_mem_filter ha)
    · cases hin
  · split at hin
    · obtain ⟨e, he, rfl⟩ := List.mem_map.mp hin
      exact hdropped e (List.mem_of_mem_filter he)
    · cases hin

variable [Postgres] {s : StoreState}

omit [Collation] in
/-- The actions of one block are told apart by their index. -/
theorem Kept.eq_of_position (h : Kept chainId extractor s) {a b : ActionsRow}
    (ha : a ∈ s.db.actions.rows) (hb : b ∈ s.db.actions.rows)
    (hheight : a.blockHeight = b.blockHeight) (hindex : a.indexInBlock = b.indexInBlock) :
    a = b := by
  have hown : ∀ a ∈ s.db.actions.rows, ∃ block ∈ s.kept,
      a ∈ batchActions chainId extractor [block] ∧ a.blockHeight = block.height := by
    intro a ha
    rw [h.actions_eq] at ha
    obtain ⟨block, hblock, hin⟩ := List.mem_flatMap.mp (distinctOn_sublist.subset ha)
    have hone : a ∈ batchActions chainId extractor [block] := by
      rw [batchActions, List.flatMap_singleton]
      exact hin
    obtain ⟨_, hmem, heq⟩ := height_of_batchActions hone
    rw [List.mem_singleton.mp hmem] at heq
    exact ⟨block, hblock, hone, heq.symm⟩
  obtain ⟨block, hblock, hin, hat⟩ := hown a ha
  obtain ⟨block', hblock', hin', hat'⟩ := hown b hb
  have hsame : block = block' := h.heights.eq_of_height hblock hblock' (by omega)
  subst hsame
  exact eq_of_index_batchActions hin hin' hindex

theorem Kept.nodup_indexes (h : Kept chainId extractor s)
    (hrow : storedBlock s.db chainId n = some row) : (row.actions.map (·.indexInBlock)).Nodup := by
  obtain ⟨b, _, hrest⟩ := Option.bind_eq_some_iff.mp hrow
  obtain ⟨actions, hactions, rfl⟩ := Option.map_eq_some_iff.mp hrest
  have hmap : actions.map (·.indexInBlock) = _ := map_of_mapM hactions
    (q := (·.indexInBlock)) (fun a b hab => by
      obtain ⟨_, _, rfl⟩ := Option.map_eq_some_iff.mp hab
      rfl)
  show (actions.map (·.indexInBlock)).Nodup
  rw [hmap, ((List.perm_insertionSort byPosition _).map _).nodup_iff]
  apply List.Nodup.map_on _ (s.db.actions.nodup_rows.filter _)
  intro x hx y hy hindex
  obtain ⟨hx, hxin⟩ := List.mem_filter.mp hx
  obtain ⟨hy, hyin⟩ := List.mem_filter.mp hy
  simp only [within, Stamped.chainOf, Stamped.heightOf, decide_eq_true_eq] at hxin hyin
  exact h.eq_of_position hx hy (by omega) hindex

omit [Postgres] in
theorem nodup_signatures (hrow : storedBlock db chainId n = some row) :
    (row.dropped.map (·.signature)).Nodup := by
  obtain ⟨b, _, hrest⟩ := Option.bind_eq_some_iff.mp hrow
  obtain ⟨actions, _, rfl⟩ := Option.map_eq_some_iff.mp hrest
  show ((droppedInRange db chainId n n).map (·.signature)).Nodup
  rw [droppedInRange, List.map_map, ((List.perm_insertionSort bySignature _).map _).nodup_iff]
  apply List.Nodup.map_on _ (db.droppedActions.nodup_rows.filter _)
  intro x hx y hy hsignature
  obtain ⟨hx, hxin⟩ := List.mem_filter.mp hx
  obtain ⟨hy, hyin⟩ := List.mem_filter.mp hy
  simp only [within, Stamped.chainOf, Stamped.heightOf, decide_eq_true_eq] at hxin hyin
  have hheight : x.blockHeight = y.blockHeight := by omega
  apply db.droppedActions.eq_of_key_eq hx hy
  exact Prod.ext (hxin.1.trans hyin.1.symm) (Prod.ext hheight hsignature)

/-- No two events of a block have one name. -/
theorem Kept.nodup_deliveries (h : Kept chainId extractor s)
    (hrow : storedBlock s.db chainId n = some row) (hook : WebhooksRow) :
    ((deliveries hook extractor row).map Delivery.name).Nodup := by
  obtain ⟨hactionHeights, hdroppedHeights⟩ := height_of_storedBlock hrow
  have hindexes := h.nodup_indexes hrow
  have hsignatures := nodup_signatures hrow
  unfold deliveries
  rw [List.map_append, List.nodup_append]
  refine ⟨?_, ?_, ?_⟩
  · split
    · rw [List.map_map]
      apply List.Nodup.map_on _ ((List.Nodup.of_map _ hindexes).filter _)
      intro a ha b hb hname
      have hid : position a.blockHeight a.indexInBlock = position b.blockHeight b.indexInBlock :=
        congrArg Prod.snd hname
      rw [hactionHeights a (List.mem_of_mem_filter ha),
        hactionHeights b (List.mem_of_mem_filter hb)] at hid
      exact List.inj_on_of_nodup_map hindexes (List.mem_of_mem_filter ha)
        (List.mem_of_mem_filter hb) (position_injective hid)
    · exact List.nodup_nil
  · split
    · rw [List.map_map]
      apply List.Nodup.map_on _ ((List.Nodup.of_map _ hsignatures).filter _)
      intro a ha b hb hname
      have hid : toString a.blockHeight ++ ":" ++ a.signature =
          toString b.blockHeight ++ ":" ++ b.signature := congrArg Prod.snd hname
      rw [hdroppedHeights a (List.mem_of_mem_filter ha),
        hdroppedHeights b (List.mem_of_mem_filter hb), String.append_right_inj] at hid
      exact List.inj_on_of_nodup_map hsignatures (List.mem_of_mem_filter ha)
        (List.mem_of_mem_filter hb) hid
    · exact List.nodup_nil
  · -- An action and a rejection are of two events.
    intro x hx y hy hxy
    split at hx
    · split at hy
      · obtain ⟨d, hd, rfl⟩ := List.mem_map.mp hx
        obtain ⟨e, he, rfl⟩ := List.mem_map.mp hy
        obtain ⟨a, _, rfl⟩ := List.mem_map.mp hd
        obtain ⟨f, _, rfl⟩ := List.mem_map.mp he
        have hkind : eventAction = eventDropped := congrArg Prod.fst hxy
        revert hkind
        decide
      · cases hy
    · cases hx

end

/-! ## All that is owed -/

section

variable [Collation] {c : HookConfig} {hook : WebhooksRow} {db db' : Database}
  {blocks more : List IndexableBlock}

/-- What the stored ones of the blocks owe, above the cursor that the hook was registered with. -/
def owedBy (c : HookConfig) (hook : WebhooksRow) (db : Database) (blocks : List IndexableBlock) :
    List Delivery :=
  (blocks.filter fun b => hook.cursorHeight < b.height).flatMap fun b => owedAt c hook db b.height

theorem owedBy_append :
    owedBy c hook db (blocks ++ more) = owedBy c hook db blocks ++ owedBy c hook db more := by
  rw [owedBy, List.filter_append, List.flatMap_append]
  rfl

theorem owedBy_cons {b : IndexableBlock} (h : hook.cursorHeight < b.height) :
    owedBy c hook db (b :: blocks) = owedAt c hook db b.height ++ owedBy c hook db blocks := by
  rw [owedBy, List.filter_cons_of_pos (by simpa using h), List.flatMap_cons]
  rfl

theorem mem_owedBy {d : Delivery} (h : d ∈ owedBy c hook db blocks) :
    ∃ b ∈ blocks, hook.cursorHeight < b.height ∧
      ∃ row, storedBlock db c.chainId b.height = some row ∧
        d ∈ deliveries hook c.extractor row := by
  obtain ⟨b, hb, hd⟩ := List.mem_flatMap.mp h
  obtain ⟨hmem, hlt⟩ := List.mem_filter.mp hb
  rw [owedAt] at hd
  cases hrow : storedBlock db c.chainId b.height with
  | none =>
      rw [hrow] at hd
      cases hd
  | some row =>
      rw [hrow] at hd
      exact ⟨b, hmem, of_decide_eq_true hlt, row, hrow, hd⟩

theorem prefix_owedBy (h : blocks <+: more) :
    owedBy c hook db blocks <+: owedBy c hook db more := by
  obtain ⟨rest, rfl⟩ := h
  rw [owedBy_append]
  exact List.prefix_append _ _

theorem owedAt_of_sameUpTo {height n : Int} (h : SameUpTo c.chainId height db db')
    (hle : n ≤ height) :
    owedAt c hook db' n = owedAt c hook db n := by
  have hsame := h.storedBlock hle
  unfold owedAt
  cases hnew : storedBlock db' c.chainId n with
  | none =>
      rw [hnew, Option.map_none, eq_comm, Option.map_eq_none_iff] at hsame
      rw [hsame]
  | some row =>
      obtain ⟨row', hrow', heq⟩ := h.deliveries hle hnew hook c.extractor
      rw [hrow', Option.elim_some, Option.elim_some, heq]

theorem owedBy_of_sameUpTo {height : Int} (h : SameUpTo c.chainId height db db')
    (hle : ∀ b ∈ blocks, (b.height : Int) ≤ height) :
    owedBy c hook db' blocks = owedBy c hook db blocks := by
  apply List.flatMap_congr
  intro b hb
  exact owedAt_of_sameUpTo h (hle b (List.mem_of_mem_filter hb))

variable [Postgres] {s : StoreState}

theorem Kept.nodup_owedBy (h : Kept c.chainId c.extractor s) :
    ((owedBy c hook s.db s.kept).map Delivery.name).Nodup := by
  rw [owedBy, List.map_flatMap, List.nodup_flatMap]
  constructor
  · intro b _
    unfold owedAt
    cases hrow : storedBlock s.db c.chainId b.height with
    | none => exact List.nodup_nil
    | some row => exact h.nodup_deliveries hrow hook
  · apply (h.ascending.filter _).imp
    intro a b hlt name ha hb
    obtain ⟨d, hd, rfl⟩ := List.mem_map.mp ha
    obtain ⟨e, he, hname⟩ := List.mem_map.mp hb
    have hheight : ∀ {x : Delivery} {m : Nat}, x ∈ owedAt c hook s.db m → x.height = m := by
      intro x m hx
      unfold owedAt at hx
      cases hrow : storedBlock s.db c.chainId m with
      | none =>
          rw [hrow] at hx
          cases hx
      | some row =>
          rw [hrow] at hx
          exact height_of_deliveries hrow hx
    have hsame := Delivery.height_of_id (hheight hd) (hheight he) (congrArg Prod.snd hname).symm
    omega

/-- What the blocks below a stored one owe comes before what it owes itself. -/
theorem Kept.split_owedBy (h : Kept c.chainId c.extractor s) {n : Int} {row : BlockRow}
    (hrow : storedBlock s.db c.chainId n = some row) (hlt : hook.cursorHeight < n) :
    ∃ below above, (∀ b ∈ below, (b.height : Int) < n) ∧
      owedBy c hook s.db s.kept = owedBy c hook s.db below ++
        (deliveries hook c.extractor row ++ owedBy c hook s.db above) := by
  obtain ⟨b, hb, _, _⟩ := find_of_storedBlock hrow
  obtain ⟨hmem, hkey⟩ := Table.find?_eq_some_iff.mp hb
  obtain ⟨i, block, hi, hheight, _⟩ := h.block_of_row hmem
  have hn : b.height = n := congrArg Prod.snd hkey
  have hat : block.height = i := h.heights.getElem_height hi
  obtain ⟨hilt, hget⟩ := List.getElem?_eq_some_iff.mp hi
  have hkept : s.kept = s.kept.take i ++ block :: s.kept.drop (i + 1) := by
    rw [← hget, ← List.drop_eq_getElem_cons hilt, List.take_append_drop]
  refine ⟨s.kept.take i, s.kept.drop (i + 1), ?_, ?_⟩
  · intro x hx
    have hbelow := h.heights.height_of_take (n := 0) (k := i) (by simpa using hx)
    omega
  · have hblock : hook.cursorHeight < block.height := by omega
    have hown : owedAt c hook s.db block.height = deliveries hook c.extractor row := by
      have heq : (block.height : Int) = n := by omega
      rw [heq, owedAt, hrow]
      rfl
    conv_lhs => rw [hkept]
    rw [owedBy_append, owedBy_cons hblock, hown]

end

/-! ## The attempts of a hook -/

/-- Every post to the hook, and whether it was answered 2xx. -/
def HookState.attempts (s : HookState) (id : Int) : List (Delivery × Bool) :=
  (s.posts.filter (·.hook.id = id)).map fun post => (post.delivery, post.answered)

theorem HookState.mem_accepted_attempts {s : HookState} {id : Int} {d : Delivery} :
    d ∈ accepted (s.attempts id) ↔ s.Answered id d := by
  simp only [mem_accepted, HookState.attempts, List.mem_map, List.mem_filter, decide_eq_true_eq,
    Prod.mk.injEq, HookState.Answered]
  exact ⟨fun ⟨post, ⟨hpost, hid⟩, hrest⟩ => ⟨post, hpost, hid, hrest⟩,
    fun ⟨post, hpost, hid, hrest⟩ => ⟨post, ⟨hpost, hid⟩, hrest⟩⟩

section

variable [Postgres] [Collation] {c : HookConfig} {s s' : HookState} {op : HookOp}

/-- A step makes one attempt at most, at the delivery that is next. -/
theorem HookState.Stepped.attempts (hs : s.Stepped c op s') (id : Int) :
    s'.attempts id = s.attempts id ∨
      ∃ tip hook delivery owed block later pending more answer,
        s.dispatcher = .draining tip hook (.posting (delivery :: owed) block later) pending more ∧
          hook.id = id ∧ s'.attempts id = s.attempts id ++ [(delivery, answer)] := by
  have hposted : ∀ (post : Post),
      ({ s with posts := s.posts ++ [post] } : HookState).attempts id =
        s.attempts id ++
          if post.hook.id = id then [(post.delivery, post.answered)] else [] := by
    intro post
    unfold HookState.attempts
    rw [List.filter_append, List.map_append]
    congr 1
    by_cases hid : post.hook.id = id
    · simp [hid]
    · simp [hid]
  cases hs with
  | @post tip hook pending more delivery owed block later hphase =>
      have hadded := hposted { hook, block, delivery, answered := true }
      by_cases hid : hook.id = id
      · rw [if_pos hid] at hadded
        exact Or.inr ⟨tip, hook, delivery, owed, block, later, pending, more, true, hphase, hid,
          hadded⟩
      · rw [if_neg hid, List.append_nil] at hadded
        exact Or.inl hadded
  | @postFailed tip hook pending more delivery owed block later _ _ hphase =>
      have hadded := hposted { hook, block, delivery, answered := false }
      by_cases hid : hook.id = id
      · rw [if_pos hid] at hadded
        exact Or.inr ⟨tip, hook, delivery, owed, block, later, pending, more, false, hphase, hid,
          hadded⟩
      · rw [if_neg hid, List.append_nil] at hadded
        exact Or.inl hadded
  | @mark _ _ _ _ _ later _ _ => cases later <;> exact Or.inl rfl
  | _ => exact Or.inl rfl

/-- Posts go to hooks that were registered. -/
theorem HookState.Stepped.posts_registered (hs : s.Stepped c op s') (hsane : s.Sane c)
    (h : ∀ post ∈ s.posts, ∃ r ∈ s.registered, r.id = post.hook.id) :
    ∀ post ∈ s'.posts, ∃ r ∈ s'.registered, r.id = post.hook.id := by
  have hadd : ∀ {tip : Int} {hook : WebhooksRow} {delivery : Delivery} {owed : List Delivery}
      {block : BlockRow} {later : List BlockRow} {pending more : List WebhooksRow}
      (answered : Bool),
      s.dispatcher = .draining tip hook (.posting (delivery :: owed) block later) pending more →
      ∀ post ∈ s.posts ++ [({ hook, block, delivery, answered } : Post)],
        ∃ r ∈ s.registered, r.id = post.hook.id := by
    intro tip hook delivery owed block later pending more answered hphase post hpost
    rcases List.mem_append.mp hpost with hold | hnew
    · exact h post hold
    · rw [List.mem_singleton.mp hnew]
      exact hsane.held hook (HookState.mem_held hphase (Or.inl rfl))
  cases hs with
  | post hphase => exact hadd true hphase
  | postFailed hphase => exact hadd false hphase
  | upsert _ _ =>
      intro post hpost
      obtain ⟨r, hr, hid⟩ := h post hpost
      exact ⟨r, List.mem_append_left _ hr, hid⟩
  | @mark _ _ _ _ _ later _ _ => cases later <;> exact h
  | _ => exact h

end

/-! ## Along a run -/

section

variable [Postgres] [Collation] {c : HookConfig} {Accounted : Delivery → Prop} {base trust : Int}
  {hook : WebhooksRow} {owed : List Delivery} {block : BlockRow} {later : List BlockRow}
  {seen : StoreState}

/-- Below the block that is posted, all is done. -/
theorem PagePosted.earlier (h : PagePosted c Accounted base hook owed block later seen trust) :
    Covers c Accounted base hook seen (block.height - 1) := by
  have hbelow := h.below block List.mem_cons_self
  refine ⟨Or.inr (by omega), ?_⟩
  intro n hlo hhi b hb d hd
  by_cases hcursor : n ≤ hook.cursorHeight
  · exact h.covers.events n hlo hcursor b hb d hd
  · obtain ⟨x, hx, hheight⟩ :=
      h.gapless n (by omega) ⟨block, List.mem_cons_self, by omega⟩ b hb
    rcases List.mem_cons.mp hx with rfl | hin
    · omega
    · have hlt := (List.pairwise_cons.mp h.sorted).1 x hin
      omega

end

/-- Of the block that is posted to the hook, what is no longer owed is accounted for. -/
def Dispatcher.Begun (c : HookConfig) (Accounted : Delivery → Prop) (id : Int) :
    Dispatcher → Prop
  | .draining _ hook (.posting owed block _) _ _ =>
      hook.id = id → ∃ done, deliveries hook c.extractor block = done ++ owed ∧
        ∀ d ∈ done, Accounted d
  | _ => True

/-- A row or a copy that has what was registered, and has all up to its cursor answered. -/
structure HookState.Answering [Collation] (c : HookConfig) (w₁ : WebhooksRow) (s : HookState)
    (w : WebhooksRow) : Prop where
  hook : w₁.SameHook w
  cursor : w₁.cursorHeight ≤ w.cursorHeight
  covers : Covers c (s.Answered w₁.id) w₁.cursorHeight w₁ s.store w.cursorHeight

structure HookState.Orderly [Postgres] [Collation] (c : HookConfig) (w₁ : WebhooksRow)
    (s : HookState) : Prop where
  sane : s.Sane c
  kept : Kept c.chainId c.extractor s.store
  registered : w₁ ∈ s.registered
  rows : ∀ w ∈ s.store.db.webhooks.rows, w.id = w₁.id → s.Answering c w₁ w
  held : ∀ w ∈ s.dispatcher.held, w.id = w₁.id → s.Answering c w₁ w
  page : s.dispatcher.PageOk c (s.Answered w₁.id) w₁.cursorHeight w₁.id (SeenPrefix s.store) s.store
  begun : s.dispatcher.Begun c (s.Answered w₁.id) w₁.id
  offered : Offered (owedBy c w₁ s.store.db s.store.kept) (s.attempts w₁.id)

section

variable {c : HookConfig} {Accounted Accounted' : Delivery → Prop} {id : Int} {d : Dispatcher}

theorem Dispatcher.Begun.mono (h : d.Begun c Accounted id)
    (hmono : ∀ d, Accounted d → Accounted' d) : d.Begun c Accounted' id := by
  cases d with
  | draining tip hook phase pending more =>
      cases phase with
      | posting owed block later =>
          intro hid
          obtain ⟨done, hsplit, hdone⟩ := h hid
          exact ⟨done, hsplit, fun d hd => hmono d (hdone d hd)⟩
      | page | reading _ | failed _ => trivial
  | waiting | listing | readingTip _ | capping _ _ => trivial

theorem Dispatcher.begun_proceed (tip : Int) (pending more : List WebhooksRow) :
    (Dispatcher.proceed tip pending more).Begun c Accounted id := by
  cases pending with
  | cons hook pending => trivial
  | nil => cases more <;> trivial

variable [Postgres] [Collation] {s s' : HookState} {op : HookOp}

theorem HookState.Stepped.begun (hs : s.Stepped c op s')
    (h : s.dispatcher.Begun c (s.Answered id) id) : s'.dispatcher.Begun c (s'.Answered id) id := by
  have hmono := hs.answered_mono id
  have hstays := h.mono hmono
  have hanswered := fun hop : op = .post none => @HookState.Stepped.answered c s s' _ _ (hop ▸ hs)
  cases hs with
  | store _ | status | refused | register _ | upsert _ _ | remove => exact hstays
  | restart | wake _ | allDisabled _ | list _ | noTip _ | readTip _ | failEarly | fail _
  | postFailed _ | select _ _ _ | readActions _ _ _ => trivial
  | cap _ _ | record _ _ => exact Dispatcher.begun_proceed _ _ _
  | selectNone _ | readNone _ | markMissed _ _ => exact Dispatcher.begun_proceed _ _ _
  | read _ _ _ => exact fun _ => ⟨[], rfl, fun _ hd => nomatch hd⟩
  | @mark tip hook pending more block later hphase hfound =>
      cases later with
      | nil => exact Dispatcher.begun_proceed _ _ _
      | cons next later => exact fun _ => ⟨[], rfl, fun _ hd => nomatch hd⟩
  | @post tip hook pending more delivery owed block later hphase =>
      intro hid
      rw [hphase] at hstays
      obtain ⟨done, hsplit, hdone⟩ := hstays hid
      refine ⟨done ++ [delivery], by rw [hsplit, List.append_assoc, List.singleton_append], ?_⟩
      intro d hd
      rcases List.mem_append.mp hd with hin | hlast
      · exact hdone d hin
      · rw [List.mem_singleton.mp hlast]
        exact ⟨_, List.mem_of_mem_drop (hanswered rfl hphase), hid, rfl, rfl⟩

variable {w₁ w : WebhooksRow} {k : Int}

theorem HookState.Stepped.covers_answered (hs : s.Stepped c op s')
    (hquiet : Undisturbed w₁.url s op s')
    (h : Covers c (s.Answered w₁.id) w₁.cursorHeight w₁ s.store k) :
    Covers c (s'.Answered w₁.id) w₁.cursorHeight w₁ s'.store k := by
  rcases op.store_or with ⟨chainOp, rfl⟩ | hop
  · cases hs with
    | store hstore =>
        apply h.chainStep hstore
        rintro target rfl
        exact absurd hquiet id
  · obtain ⟨t, ht⟩ := hs.store_eq hop
    rw [ht]
    exact (h.withHooks t).mono (hs.answered_mono w₁.id)

theorem HookState.Answering.step (h : s.Answering c w₁ w) (hs : s.Stepped c op s')
    (hquiet : Undisturbed w₁.url s op s') : s'.Answering c w₁ w :=
  ⟨h.hook, h.cursor, hs.covers_answered hquiet h.covers⟩

/-- New blocks owe what comes after all that is owed. -/
theorem HookState.Stepped.owed_more (hs : s.Stepped c op s')
    (hkept : Kept c.chainId c.extractor s.store) (hquiet : Undisturbed w₁.url s op s') :
    ∃ more, owedBy c w₁ s'.store.db s'.store.kept =
      owedBy c w₁ s.store.db s.store.kept ++ more := by
  rcases op.store_or with ⟨chainOp, rfl⟩ | hop
  · cases hs with
    | store hstore =>
        cases chainOp with
        | rollback height => exact absurd hquiet id
        | insert blocks =>
            rcases chainStep_insert hstore with rfl | ⟨hnext, db, hdb, rfl⟩
            · exact ⟨[], (List.append_nil _).symm⟩
            · have hsame : SameUpTo c.chainId (s.store.kept.length - 1 : Int) s.store.db db := by
                apply SameUpTo.insertBlocks hdb
                intro b hb
                have hle := hnext.le_height hb
                omega
              refine ⟨owedBy c w₁ db blocks, ?_⟩
              show owedBy c w₁ db (s.store.kept ++ blocks) = _
              rw [owedBy_append, owedBy_of_sameUpTo hsame]
              intro b hb
              have hlt := hkept.heights.height_lt hb
              omega
  · obtain ⟨t, ht⟩ := hs.store_eq hop
    rw [ht]
    exact ⟨[], (List.append_nil _).symm⟩

/-- The block that is posted is stored as it was read, and below it all is answered. -/
theorem HookState.Orderly.posting (h : s.Orderly c w₁) {tip : Int} {hook : WebhooksRow}
    {owed : List Delivery} {block : BlockRow} {later : List BlockRow}
    {pending more : List WebhooksRow}
    (hphase : s.dispatcher = .draining tip hook (.posting owed block later) pending more)
    (hid : hook.id = w₁.id) :
    w₁.SameHook hook ∧ w₁.cursorHeight < block.height ∧
      (∃ row, storedBlock s.store.db c.chainId block.height = some row ∧
        deliveries w₁ c.extractor row = deliveries hook c.extractor block) ∧
      Covers c (s.Answered w₁.id) w₁.cursorHeight w₁ s.store (block.height - 1) ∧
      (owed = [] → Covers c (s.Answered w₁.id) w₁.cursorHeight w₁ s.store block.height) := by
  have hcopy := h.held hook (HookState.mem_held hphase (Or.inl rfl)) hid
  have hpage := h.page
  rw [hphase] at hpage
  obtain ⟨seen, trust, ⟨htrust, hprefix⟩, hposted⟩ := hpage hid
  have hbelow := hposted.below block List.mem_cons_self
  have habove := hposted.above block List.mem_cons_self
  have hcursor := hcopy.cursor
  have hlength := hprefix.length_le
  have hsame : SameUpTo c.chainId block.height seen.db s.store.db := by
    apply hposted.kept.sameUpTo h.kept
    obtain ⟨rest, hrest⟩ := hprefix
    rw [← hrest, List.take_append_of_le_length (by omega)]
  have hrow := hposted.stored block List.mem_cons_self (by omega)
  refine ⟨hcopy.hook, by omega, ?_, ?_, ?_⟩
  · obtain ⟨row, hrow', hdeliveries⟩ := hsame.symm.deliveries (Int.le_refl _) hrow hook c.extractor
    refine ⟨row, hrow', ?_⟩
    rw [← hdeliveries]
    unfold deliveries
    rw [hcopy.hook.address, hcopy.hook.events]
  · have hearlier := hposted.earlier.filter hcopy.hook.address.symm hcopy.hook.events.symm
    exact hearlier.same (hsame.mono (by omega)) (Or.inr (by omega))
  · rintro rfl
    have hcovered := (hposted.covered (by omega)).filter hcopy.hook.address.symm
      hcopy.hook.events.symm
    exact hcovered.same hsame (Or.inr (by omega))

theorem HookState.Orderly.rows_step (h : s.Orderly c w₁) (hs : s.Stepped c op s')
    (hquiet : Undisturbed w₁.url s op s') :
    ∀ w ∈ s'.store.db.webhooks.rows, w.id = w₁.id → s'.Answering c w₁ w := by
  intro w' hw' hid
  rcases hs.row h.sane hw' with ⟨w, hw, hsame, hmoved, _⟩ | ⟨place, _, r, rfl, hplace, hwrote, _⟩
  · have hwid : w.id = w₁.id := hsame.id.symm.trans hid
    have hrow := h.rows w hw hwid
    cases hmoved with
    | stays hcursor _ =>
        refine ⟨hrow.hook.trans hsame, ?_, ?_⟩
        · rw [hcursor]
          exact hrow.cursor
        · rw [hcursor]
          exact hs.covers_answered hquiet hrow.covers
    | rewound _ _ => exact absurd hquiet id
    | delivered hphase hhookId _ hcursor =>
        obtain ⟨_, hlt, _, _, hcovers⟩ := h.posting hphase (hhookId.symm.trans hwid)
        refine ⟨hrow.hook.trans hsame, ?_, ?_⟩
        · rw [hcursor]
          exact hlt.le
        · rw [hcursor]
          exact hs.covers_answered hquiet (hcovers rfl)
  · rcases hwrote.id with hnext | ⟨old, hold, hurl, holdId⟩
    · have hlt := h.sane.ids w₁ h.registered
      omega
    · have hrow := h.rows old hold (holdId.trans hid)
      exact absurd (hurl.symm.trans hrow.hook.url) (hquiet r hplace)

theorem HookState.Orderly.held_step (h : s.Orderly c w₁) (hs : s.Stepped c op s')
    (hquiet : Undisturbed w₁.url s op s') :
    ∀ w ∈ s'.dispatcher.held, w.id = w₁.id → s'.Answering c w₁ w := by
  intro w hw hid
  cases hs.copied hw with
  | held hheld => exact (h.held w hheld hid).step hs hquiet
  | listed _ hlisted => exact (h.rows w (mem_listWebhooks hlisted).1 hid).step hs hquiet
  | @moved tip hook block later pending more _ hphase _ hcopy =>
      subst hcopy
      obtain ⟨hhook, hlt, _, _, hcovers⟩ := h.posting hphase hid
      exact ⟨hhook.moved block.height, hlt.le, hs.covers_answered hquiet (hcovers rfl)⟩

theorem HookState.Orderly.page_step (h : s.Orderly c w₁) (hs : s.Stepped c op s')
    (hquiet : Undisturbed w₁.url s op s') :
    s'.dispatcher.PageOk c (s'.Answered w₁.id) w₁.cursorHeight w₁.id
      (SeenPrefix s'.store) s'.store := by
  have hprefix := hs.kept_prefix hquiet
  have hseen : ∀ seen trust, SeenPrefix s.store seen trust → SeenPrefix s'.store seen trust :=
    fun seen trust hseen => ⟨hseen.1, hseen.2.trans hprefix⟩
  rcases op.store_or with ⟨chainOp, rfl⟩ | hop
  · cases hs with
    | store hstore =>
        cases chainOp with
        | rollback height => exact absurd hquiet id
        | insert blocks => exact h.page.insert hstore hseen
  · apply hs.pageOk hop h.sane h.kept (fun _ => h.page) (hs.answered_mono w₁.id)
      (fun seen trust _ => hseen seen trust)
    · rintro tip hook r pending more rfl hphase hid _ _
      have hcopy := h.held_step hs hquiet hook (HookState.mem_held hphase (Or.inl rfl)) hid
      obtain ⟨t, ht⟩ := hs.store_eq hop
      have hcovers := hcopy.covers.filter hcopy.hook.address hcopy.hook.events
      rw [ht] at hcovers
      exact ⟨⟨hcovers.stored, hcovers.events⟩, s.store.kept.length - 1, ⟨by omega, hprefix⟩,
        by omega⟩
    · rintro tip hook delivery owed block later pending more rfl hphase hid
      exact ⟨_, List.mem_of_mem_drop (hs.answered hphase), hid, rfl, rfl⟩
    · intro tip hook block later pending more seen trust _ _ _ _ hseen hposted
      have hbelow := hposted.below block List.mem_cons_self
      have htrust := hseen.1
      omega

/-- All that comes before the next delivery was answered. -/
theorem HookState.Orderly.next (h : s.Orderly c w₁) {tip : Int} {hook : WebhooksRow}
    {delivery : Delivery} {owed : List Delivery} {block : BlockRow} {later : List BlockRow}
    {pending more : List WebhooksRow}
    (hphase : s.dispatcher =
      .draining tip hook (.posting (delivery :: owed) block later) pending more)
    (hid : hook.id = w₁.id) :
    ∃ before after, owedBy c w₁ s.store.db s.store.kept = before ++ delivery :: after ∧
      ∀ d ∈ before, d ∈ accepted (s.attempts w₁.id) := by
  obtain ⟨_, hlt, ⟨row, hrow, hdeliveries⟩, hcovers, _⟩ := h.posting hphase hid
  have hbegun := h.begun
  rw [hphase] at hbegun
  obtain ⟨done, hsplit, hdone⟩ := hbegun hid
  obtain ⟨below, above, hbelow, howed⟩ := h.kept.split_owedBy hrow hlt
  refine ⟨owedBy c w₁ s.store.db below ++ done,
    owed ++ owedBy c w₁ s.store.db above, ?_, ?_⟩
  · rw [howed, hdeliveries, hsplit]
    simp
  · intro d hd
    rw [HookState.mem_accepted_attempts]
    rcases List.mem_append.mp hd with hin | hin
    · obtain ⟨b, hb, hlo, row', hrow', hd⟩ := mem_owedBy hin
      have hhi := hbelow b hb
      exact hcovers.events b.height hlo (by omega) row' hrow' d hd
    · exact hdone d hin

theorem HookState.Orderly.step (h : s.Orderly c w₁) (hs : s.Stepped c op s')
    (hquiet : Undisturbed w₁.url s op s') : s'.Orderly c w₁ := by
  refine ⟨sane_step h.sane hs, hs.kept h.kept, hs.registered.subset h.registered,
    h.rows_step hs hquiet, h.held_step hs hquiet, h.page_step hs hquiet, hs.begun h.begun, ?_⟩
  obtain ⟨more, hmore⟩ := hs.owed_more h.kept hquiet
  rw [hmore]
  apply Offered.append
  rcases hs.attempts w₁.id with hsame | ⟨_, _, delivery, _, _, _, _, _, answer, hphase, hid, hadded⟩
  · rw [hsame]
    exact h.offered
  · obtain ⟨before, after, hsplit, hbefore⟩ := h.next hphase hid
    rw [hadded]
    exact .attempt h.offered hsplit hbefore

omit [Postgres] [Collation] in
theorem Dispatcher.begun_of_held (h : ∀ w ∈ d.held, w.id ≠ id) : d.Begun c Accounted id := by
  cases d with
  | draining tip hook phase pending more =>
      have hne : hook.id ≠ id := h hook List.mem_cons_self
      cases phase with
      | posting owed block later => exact fun hid => absurd hid hne
      | page | reading _ | failed _ => trivial
  | waiting | listing | readingTip _ | capping _ _ => trivial

/-- Nothing is known yet of a hook with a new id, and nothing needs to be. -/
theorem HookState.orderly {s₁ : HookState} {place : Nat} {now : Int} (hsane : s.Sane c)
    (hkept : Kept c.chainId c.extractor s.store)
    (hposts : ∀ post ∈ s.posts, ∃ r ∈ s.registered, r.id = post.hook.id)
    (hs : s.Stepped c (.upsert place now) s₁) (hrow : s₁.registered = s.registered ++ [w₁])
    (hnew : ∀ r ∈ s.registered, r.id ≠ w₁.id) : s₁.Orderly c w₁ := by
  have hsane₁ := sane_step hsane hs
  have hkept₁ := hs.kept hkept
  have hmem : w₁ ∈ s₁.registered := by
    rw [hrow]
    exact List.mem_append_right _ (List.mem_singleton_self _)
  have hheld : ∀ w ∈ s.dispatcher.held, w.id ≠ w₁.id := by
    intro w hw hid
    obtain ⟨r, hr, heq⟩ := hsane.held w hw
    exact hnew r hr (heq.trans hid)
  cases hs with
  | @upsert _ _ r db row hplace hupsert =>
      obtain ⟨_, hrows⟩ := upsertWebhook_spec hsane.fresh hupsert
      obtain rfl : row = w₁ := List.singleton_inj.mp (List.append_cancel_left hrow)
      have hnone : s.attempts row.id = [] := by
        rw [HookState.attempts, List.map_eq_nil_iff, List.filter_eq_nil_iff]
        intro post hpost hid
        obtain ⟨r, hr, heq⟩ := hposts post hpost
        exact hnew r hr (heq.trans (of_decide_eq_true hid))
      refine ⟨hsane₁, hkept₁, hmem, ?_, fun w hw hid => absurd hid (hheld w hw),
        Dispatcher.pageOk_of_held hheld, Dispatcher.begun_of_held hheld, ?_⟩
      · intro w hw hid
        rcases hrows w hw with rfl | ⟨_, hne⟩
        · exact ⟨.refl, Int.le_refl _, .of_le_base (Int.le_refl _)⟩
        · exact absurd hid hne
      · show Offered _ (s.attempts row.id)
        rw [hnone]
        exact .none

/-- What was told, each event once, is a beginning of what is owed, and has all up to the cursor. -/
theorem HookState.Orderly.told (h : s.Orderly c w₁) :
    distinctOn Delivery.name (accepted (s.attempts w₁.id)) <+:
        owedBy c w₁ s.store.db s.store.kept ∧
      ∀ w ∈ s.store.db.webhooks.rows, w.id = w₁.id →
        owedBy c w₁ s.store.db (s.store.kept.take (w.cursorHeight + 1).toNat) <+:
          distinctOn Delivery.name (accepted (s.attempts w₁.id)) := by
  have hnames : ((owedBy c w₁ s.store.db s.store.kept).map Delivery.name).Nodup :=
    h.kept.nodup_owedBy
  obtain ⟨n, _, htold⟩ := h.offered.distinctOn_accepted hnames
  rw [htold]
  refine ⟨List.take_prefix _ _, fun w hw hid => ?_⟩
  obtain ⟨rest, hrest⟩ : owedBy c w₁ s.store.db
      (s.store.kept.take (w.cursorHeight + 1).toNat) <+:
        owedBy c w₁ s.store.db s.store.kept := prefix_owedBy (List.take_prefix _ _)
  have hcovers := (h.rows w hw hid).covers
  have hdone : ∀ d ∈ owedBy c w₁ s.store.db
      (s.store.kept.take (w.cursorHeight + 1).toNat), d ∈ accepted (s.attempts w₁.id) := by
    intro d hd
    obtain ⟨b, hb, hlo, row, hrow, hin⟩ := mem_owedBy hd
    have hhi := h.kept.heights.height_of_take (n := 0) (by simpa using hb)
    rw [HookState.mem_accepted_attempts]
    exact hcovers.events b.height hlo (by omega) row hrow d hin
  have hle : (owedBy c w₁ s.store.db
      (s.store.kept.take (w.cursorHeight + 1).toNat)).length ≤ n := by
    rw [← hrest] at hnames
    apply length_le_of_keys hnames
    intro d hd
    rw [hrest, ← htold, mem_map_distinctOn]
    exact List.mem_map_of_mem (hdone d hd)
  rw [← hrest, List.take_append, List.take_of_length_le hle]
  exact List.prefix_append _ _

section

variable {earlier later : List HookOp} {s₀ s₁ : HookState} {place : Nat} {now : Int}

theorem HookState.orderly_run (hbefore : exec (hookStep c) {} earlier = some s₀)
    (hreturned : hookStep c s₀ (.upsert place now) = some s₁)
    (hrow : s₁.registered = s₀.registered ++ [w₁]) (hnew : ∀ r ∈ s₀.registered, r.id ≠ w₁.id)
    (hquiet : Always (hookStep c) (Undisturbed w₁.url) s₁ later)
    (hafter : exec (hookStep c) s₁ later = some s) : s.Orderly c w₁ := by
  have hreached : s₀.Sane c ∧ Kept c.chainId c.extractor s₀.store ∧
      ∀ post ∈ s₀.posts, ∃ r ∈ s₀.registered, r.id = post.hook.id := by
    apply exec_preserves _ ⟨sane_empty, kept_empty, fun post hpost => nomatch hpost⟩ hbefore
    rintro s op s' ⟨hsane, hkept, hposts⟩ hs
    have hstepped := HookState.stepped hs
    exact ⟨sane_step hsane hstepped, hstepped.kept hkept, hstepped.posts_registered hsane hposts⟩
  obtain ⟨hsane, hkept, hposts⟩ := hreached
  apply always_invariant (I := HookState.Orderly c w₁) _
    (HookState.orderly hsane hkept hposts (HookState.stepped hreturned) hrow hnew) hquiet hafter
  intro s op s' h hs hquiet
  exact h.step (HookState.stepped hs) hquiet

/-- After the first registration of a URL, and until the next one or a rollback, its receiver is
never offered an event before it has answered all those that come before it in the chain. What it
has answered, but for repeats, is the beginning of what the stored blocks above the cursor of the
registration owe, and has all of it up to the cursor of the row. -/
theorem hook_events_in_order (hbefore : exec (hookStep c) {} earlier = some s₀)
    (hreturned : hookStep c s₀ (.upsert place now) = some s₁)
    (hrow : s₁.registered = s₀.registered ++ [w₁]) (hnew : ∀ r ∈ s₀.registered, r.id ≠ w₁.id)
    (hquiet : Always (hookStep c) (Undisturbed w₁.url) s₁ later)
    (hafter : exec (hookStep c) s₁ later = some s) :
    Offered (owedBy c w₁ s.store.db s.store.kept) (s.attempts w₁.id) ∧
      distinctOn Delivery.name (accepted (s.attempts w₁.id)) <+:
        owedBy c w₁ s.store.db s.store.kept ∧
      ∀ w ∈ s.store.db.webhooks.rows, w.id = w₁.id →
        owedBy c w₁ s.store.db (s.store.kept.take (w.cursorHeight + 1).toNat) <+:
          distinctOn Delivery.name (accepted (s.attempts w₁.id)) := by
  have h := HookState.orderly_run hbefore hreturned hrow hnew hquiet hafter
  exact ⟨h.offered, h.told⟩

end

end

/-! ## A concrete run -/

/-- The receiver refuses the event of block 1 once, and the process restarts within block 2. -/
def restartedMidBlock : List HookOp :=
  [.store (.insert [.transfer 1 "a" "g" "alice" "tx"])] ++ firstPage 0 ++
    [.post (some "receiver answered 503"), .record 0 0 true,
      .store (.insert [.twoTransfers 2 "b" "a" ("t1", "t2")])] ++ firstPage 5 ++
    [.post none, .mark, .post none, .restart] ++ firstPage 6 ++ [.post none, .post none, .mark]

/-- Id and URL of what was registered, what was attempted, the cursor and the number of blocks. -/
def HookState.toldOf (s₀ s₁ s : HookState) :
    Nat × List (Int × String) × List (String × Bool) × List (Int × Int) × Nat :=
  (s₀.registered.length, s₁.registered.map fun w => (w.id, w.url),
    (s.attempts 1).map fun (d, answer) => (d.id, answer), s.cursors.2, s.store.kept.length)

theorem hook_events_in_order_restarted :
    ∃ w₁ s₀ s₁ s, aroundRegistration [.store (.insert [.bare 0 "g" ""]), .register (.receiver 1)]
        restartedMidBlock = some (s₀, s₁, s) ∧
      (s.attempts w₁.id).map (fun (d, answer) => (d.id, answer)) =
        [("1:0", false), ("1:0", true), ("2:0", true), ("2:0", true), ("2:1", true)] ∧
      distinctOn Delivery.name (accepted (s.attempts w₁.id)) =
        @owedBy .plain .small w₁ s.store.db s.store.kept := by
  have hany : (aroundRegistration [.store (.insert [.bare 0 "g" ""]), .register (.receiver 1)]
      restartedMidBlock).any (fun (s₀, s₁, s) =>
        decide (Always smallHookStep (Undisturbed "http://receiver/") s₁ restartedMidBlock) &&
          decide (HookState.toldOf s₀ s₁ s = (0, [(1, "http://receiver/")],
            [("1:0", false), ("1:0", true), ("2:0", true), ("2:0", true), ("2:1", true)],
            [(1, 2)], 3))) = true := by decide
  obtain ⟨⟨s₀, s₁, s⟩, hrun, hfacts⟩ := (Option.any_eq_true _ _).mp hany
  rw [Bool.and_eq_true, decide_eq_true_eq, decide_eq_true_eq] at hfacts
  obtain ⟨hquiet, htold⟩ := hfacts
  simp only [HookState.toldOf, Prod.mk.injEq] at htold
  obtain ⟨hnone, hregistered, hattempts, hrows, hlength⟩ := htold
  obtain ⟨hbefore, hreturned, hafter⟩ := runs_of_aroundRegistration hrun
  obtain ⟨w₁, hw₁, heq⟩ := List.map_eq_singleton_iff.mp hregistered
  obtain ⟨hid₁, hurl⟩ := Prod.mk.inj heq
  have hempty : s₀.registered = [] := List.eq_nil_of_length_eq_zero hnone
  have hrow : s₁.registered = s₀.registered ++ [w₁] := by rw [hempty, hw₁, List.nil_append]
  have hnew : ∀ r ∈ s₀.registered, r.id ≠ w₁.id := by
    rw [hempty]
    exact fun r hr => nomatch hr
  rw [← hurl] at hquiet
  obtain ⟨_, hsome, hall⟩ := @hook_events_in_order .small .plain .plain s w₁ _ _ s₀ s₁ 0 0 hbefore
    hreturned hrow hnew hquiet hafter
  obtain ⟨w, hmem, hid, hcursor⟩ := HookState.row_of_cursors hrows
  have hupTo := hall w hmem (hid.trans hid₁.symm)
  have htake : s.store.kept.take (w.cursorHeight + 1).toNat = s.store.kept :=
    List.take_of_length_le (by omega)
  rw [htake] at hupTo
  rw [← hid₁] at hattempts
  exact ⟨w₁, s₀, s₁, s, hrun, hattempts, hsome.eq_of_length_le hupTo.length_le⟩

/-! ## The stream and the hook -/

section

variable [Postgres] {chainId : String} {extractor : AddressExtractor} {s : StoreState} {n f : Nat}
  {block : IndexableBlock}

theorem Kept.actionsHaveBlocks (h : Kept chainId extractor s) : ActionsHaveBlocks s.db := by
  intro a ha
  rw [h.actions_eq] at ha
  have hchain := chainId_batchActions (distinctOn_sublist.subset ha)
  obtain ⟨block, hblock, hheight⟩ := height_of_batchActions (distinctOn_sublist.subset ha)
  obtain ⟨i, hi⟩ := List.getElem?_of_mem hblock
  have hat := h.heights.getElem_height hi
  obtain ⟨b, hb, _⟩ := h.find_block hi
  rw [hchain, ← hheight, hat, hb]
  rfl

theorem Kept.exists_storedBlock [Collation] (h : Kept chainId extractor s)
    (hn : s.kept[n]? = some block) : ∃ row, storedBlock s.db chainId n = some row := by
  obtain ⟨b, hb, _⟩ := h.find_block hn
  obtain ⟨actions, hactions⟩ :=
    Option.isSome_iff_exists.mp (isSome_selectActions h.actionsHaveBlocks n n)
  exact ⟨_, by rw [storedBlock, hb, Option.bind_some, hactions, Option.map_some]⟩

omit [Postgres] in
/-- The stream and the deliveries have the same ids. -/
theorem id_of_actionEvents {address : Option String} {e : SseEvent ActionRow}
    (he : e ∈ block.actionEvents extractor address) : e.id = (Delivery.action e.data).id := by
  unfold IndexableBlock.actionEvents at he
  cases hwire : blockRowFromWire block with
  | none =>
      rw [hwire] at he
      cases he
  | some wire =>
      rw [hwire] at he
      obtain ⟨a, _, rfl⟩ := List.mem_map.mp he
      rfl

/-- A hook for actions is owed what the stream sends of the block. -/
theorem Kept.owedAt_actions [Collation] {c : HookConfig} (h : Kept c.chainId c.extractor s)
    (hdistinct : DistinctNames s.kept) (hn : s.kept[n]? = some block) {hook : WebhooksRow}
    (hevents : hook.events = [eventAction]) :
    owedAt c hook s.db n =
      (block.actionEvents c.extractor hook.address).map fun e => .action e.data := by
  obtain ⟨row, hrow⟩ := h.exists_storedBlock hn
  obtain ⟨wire, hwire, hlike⟩ := h.storedBlock_like hdistinct hn hrow
  have hyes : ([eventAction].any fun e => e == eventAction) = true := by decide
  have hno : ([eventAction].any fun e => e == eventDropped) = false := by decide
  rw [owedAt, hrow, Option.elim_some, IndexableBlock.actionEvents, hwire, Option.elim_some,
    deliveries, hevents, if_pos hyes, hno, actionEvents, hlike.actions, List.map_map]
  simp

theorem Kept.owedBy_actions [Collation] {c : HookConfig} (h : Kept c.chainId c.extractor s)
    (hdistinct : DistinctNames s.kept) {hook : WebhooksRow} (hevents : hook.events = [eventAction])
    (hfrom : hook.cursorHeight + 1 = f) :
    owedBy c hook s.db s.kept =
      ((s.kept.drop f).flatMap (·.actionEvents c.extractor hook.address)).map fun e =>
        .action e.data := by
  have hblocks : (s.kept.filter fun b => decide (hook.cursorHeight < (b.height : Int))) =
      s.kept.drop f := by
    rw [← h.heights.filter_from f]
    apply List.filter_congr
    intro b _
    rw [decide_eq_decide]
    omega
  rw [owedBy, hblocks, List.map_flatMap]
  apply List.flatMap_congr
  intro b hb
  obtain ⟨i, hi⟩ := List.getElem?_of_mem (List.mem_of_mem_drop hb)
  have hat := h.heights.getElem_height hi
  rw [hat]
  exact h.owedAt_actions hdistinct hi hevents

end

/-- A hook for actions is told what a client of the stream of actions is sent that asked for the
heights above the hook's first cursor, with the same ids: a beginning of it that has all up to the
cursor of the row, and all of it once the row is at the last block. -/
theorem hook_tells_what_is_streamed [Postgres] [Collation] {c : HookConfig} {w₁ : WebhooksRow}
    {earlier later : List HookOp} {s₀ s₁ s : HookState} {place : Nat} {now : Int}
    (hbefore : exec (hookStep c) {} earlier = some s₀)
    (hreturned : hookStep c s₀ (.upsert place now) = some s₁)
    (hrow : s₁.registered = s₀.registered ++ [w₁]) (hnew : ∀ r ∈ s₀.registered, r.id ≠ w₁.id)
    (hquiet : Always (hookStep c) (Undisturbed w₁.url) s₁ later)
    (hafter : exec (hookStep c) s₁ later = some s) (hevents : w₁.events = [eventAction])
    {sc : StreamConfig} {t : StreamState} {stream : BlockStream} {f : Nat}
    (hstream : Connected sc t stream f) (hcaughtUp : CaughtUp sc t stream)
    (hfrom : w₁.cursorHeight + 1 = f) (hextractor : sc.extractor = c.extractor)
    (hblocks : t.store.kept = s.store.kept) (hdistinct : DistinctNames s.store.kept)
    {chain : RestChain} {events : List (SseEvent ActionRow)}
    (hsent : streamActions chain sc.extractor w₁.address stream = .ok events) :
    ((distinctOn Delivery.name (accepted (s.attempts w₁.id))).map fun d => (d.id, d)) <+:
        events.map (fun e => (e.id, .action e.data)) ∧
      ∀ w ∈ s.store.db.webhooks.rows, w.id = w₁.id → w.cursorHeight + 1 = s.store.kept.length →
        ((distinctOn Delivery.name (accepted (s.attempts w₁.id))).map fun d => (d.id, d)) =
          events.map fun e => (e.id, .action e.data) := by
  have h := HookState.orderly_run hbefore hreturned hrow hnew hquiet hafter
  have hstreamed := hstream.streamedFrom
  have hall := hstreamed.actionEvents (hblocks ▸ hdistinct) hsent
  rw [hstreamed.take_all hcaughtUp, hblocks, hextractor] at hall
  have howed : (owedBy c w₁ s.store.db s.store.kept).map (fun d => (d.id, d)) =
      events.map fun e => (e.id, .action e.data) := by
    rw [h.kept.owedBy_actions hdistinct hevents hfrom, ← hall, List.map_map]
    apply List.map_congr_left
    intro e he
    rw [hall] at he
    obtain ⟨block, _, hin⟩ := List.mem_flatMap.mp he
    have hid : e.id = (Delivery.action e.data).id := id_of_actionEvents hin
    rw [Function.comp_apply, hid]
  obtain ⟨htold, hupTo⟩ := h.told
  rw [← howed]
  refine ⟨htold.map _, fun w hw hid hlast => ?_⟩
  have htake : s.store.kept.take (w.cursorHeight + 1).toNat = s.store.kept :=
    List.take_of_length_le (by omega)
  have hrest := hupTo w hw hid
  rw [htake] at hrest
  rw [htold.eq_of_length_le hrest.length_le]

/-- A hook for actions from the first block on, over the blocks of the stream. -/
def registeredForActions : List HookOp :=
  [.store (.insert connectedBlocks),
    .register { RegisterWebhook.receiver 0 with events := some ["action"] }]

def toldAll : List HookOp :=
  firstPage 0 ++ [.mark, .post none, .post none, .mark, .post none, .mark]

theorem hook_tells_what_is_streamed_all :
    ∃ (w₁ : WebhooksRow) (s₀ s₁ s : HookState) (t : StreamState) (stream : BlockStream)
      (events : List (SseEvent ActionRow)),
      aroundRegistration registeredForActions toldAll = some (s₀, s₁, s) ∧
      @Connected .plain .plain .small t stream 0 ∧
      streamActions silentChain StreamConfig.small.extractor w₁.address stream = .ok events ∧
      (s.attempts w₁.id).map (fun (d, answer) => (d.id, answer)) =
        [("1:0", true), ("1:1", true), ("2:0", true)] ∧
      ((distinctOn Delivery.name (accepted (s.attempts w₁.id))).map fun d => (d.id, d)) =
        events.map fun e => (e.id, .action e.data) := by
  have hany : (aroundRegistration registeredForActions toldAll).any (fun (s₀, s₁, s) =>
      decide (Always smallHookStep (Undisturbed "http://receiver/") s₁ toldAll) &&
        decide (HookState.toldOf s₀ s₁ s = (0, [(1, "http://receiver/")],
          [("1:0", true), ("1:1", true), ("2:0", true)], [(1, 2)], 3)) &&
        decide (s₁.registered.map (fun w => (w.events, w.cursorHeight, w.address)) =
          [([eventAction], -1, none)])) = true := by
    decide
  have hblocks : (aroundRegistration registeredForActions toldAll).map
      (fun (_, _, s) => s.store.kept) = some connectedBlocks := rfl
  obtain ⟨⟨s₀, s₁, s⟩, hrun, hfacts⟩ := (Option.any_eq_true _ _).mp hany
  rw [hrun] at hblocks
  have hkept : s.store.kept = connectedBlocks := Option.some.inj hblocks
  simp only [Bool.and_eq_true, decide_eq_true_eq, HookState.toldOf, Prod.mk.injEq] at hfacts
  obtain ⟨⟨hquiet, hnone, hregistered, hattempts, hrows, hlength⟩, hfilter⟩ := hfacts
  obtain ⟨hbefore, hreturned, hafter⟩ := runs_of_aroundRegistration hrun
  obtain ⟨w₁, hw₁, heq⟩ := List.map_eq_singleton_iff.mp hregistered
  obtain ⟨hid₁, hurl⟩ := Prod.mk.inj heq
  rw [hw₁, List.map_singleton, List.cons.injEq, Prod.mk.injEq, Prod.mk.injEq] at hfilter
  obtain ⟨⟨hevents, hcursor₁, haddress⟩, _⟩ := hfilter
  have hempty : s₀.registered = [] := List.eq_nil_of_length_eq_zero hnone
  have hrow : s₁.registered = s₀.registered ++ [w₁] := by rw [hempty, hw₁, List.nil_append]
  have hnew : ∀ r ∈ s₀.registered, r.id ≠ w₁.id := by
    rw [hempty]
    exact fun r hr => nomatch hr
  rw [← hurl] at hquiet
  obtain ⟨t, stream, hstreamed, hconnected, hcaughtUp⟩ := connectedOnce_connectedBlocks
  obtain ⟨w, hmem, hid, hcursor⟩ := HookState.row_of_cursors hrows
  have hsent : streamActions silentChain StreamConfig.small.extractor w₁.address stream =
      .ok (stream.emitted.flatMap (actionEvents StreamConfig.small.extractor none)) := by
    rw [haddress]
    rfl
  obtain ⟨_, hall⟩ := @hook_tells_what_is_streamed .plain .plain .small w₁ _ _ s₀ s₁ s 0 0 hbefore
    hreturned hrow hnew hquiet hafter hevents .small t stream 0 hconnected hcaughtUp
    (by rw [hcursor₁]; rfl) rfl (hstreamed.trans hkept.symm)
    (hkept ▸ distinctNames_connectedBlocks) silentChain _ hsent
  rw [← hid₁] at hattempts
  exact ⟨w₁, s₀, s₁, s, t, stream, _, hrun, hconnected, hsent, hattempts,
    hall w hmem (hid.trans hid₁.symm) (by omega)⟩

end Retracer
