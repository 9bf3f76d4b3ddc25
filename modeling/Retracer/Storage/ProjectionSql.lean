import Retracer.Library.Sql
import Retracer.Storage.SchemaConfig

/-! # Projections in SQL

A declared projection gets into statements as text: by the name of its index, as the
accessor of its path, as its cast, and by its kind as a constant.
-/

namespace Retracer

open Quoting Sql Traverse

/-! ## The text -/

/-- `payload->'a'->'b'->>'c'`. -/
def Projection.jsonAccessor (p : Projection) : String :=
  p.segments.dropLast.foldl (fun expr segment => expr ++ ("->'" ++ segment ++ "'")) "payload" ++
    ("->>'" ++ p.segments.getLast p.nonempty ++ "'")

/-- The statement of `create_projection_indexes`. -/
def Projection.createIndexSql [IndexHost] (p : Projection) : String :=
  "CREATE INDEX IF NOT EXISTS " ++ p.indexName ++ " ON actions (((" ++ p.jsonAccessor ++ ")::" ++
    p.ty.sqlCast ++ ")) WHERE kind = '" ++ replaceChar '\'' "''" p.kind ++ "'"

/-- The condition that `list_actions` adds to its query. -/
def Projection.clauseSql (p : Projection) : String :=
  " AND ((" ++ p.jsonAccessor ++ ")::" ++ p.ty.sqlCast ++ ") = ($6::TEXT)::" ++ p.ty.sqlCast

/-! ## Index names -/

/-- An identifier that needs no quotes and is not folded to another. -/
def isBareIdentifier (name : String) : Bool :=
  match name.toList with
  | [] => false
  | c :: cs => (c.isLower || c == '_') && cs.all fun d => d.isLower || d.isDigit || d == '_'

def isNameChar (c : Char) : Bool := c.isLower || c.isDigit || c == '_'

theorem isAlphanum_eq (c : Char) :
    c.isAlphanum = (c.isUpper || c.isLower || c.isDigit) := rfl

theorem toNat_lt_of_isAlphanum {c : Char} (h : c.isAlphanum = true) : c.toNat < 128 := by
  have hupper : c.isUpper = decide (c.val ≥ 'A'.val ∧ c.val ≤ 'Z'.val) := rfl
  have hlower : c.isLower = (decide (c.val ≥ 'a'.val) && decide (c.val ≤ 'z'.val)) := rfl
  have hdigit : c.isDigit = (decide (c.val ≥ '0'.val) && decide (c.val ≤ '9'.val)) := rfl
  simp only [isAlphanum_eq, hupper, hlower, hdigit, Bool.or_eq_true, Bool.and_eq_true,
    decide_eq_true_eq, UInt32.le_iff_toNat_le, ge_iff_le] at h
  have hc : c.toNat = c.val.toNat := rfl
  have hZ : 'Z'.val.toNat = 90 := rfl
  have hz : 'z'.val.toNat = 122 := rfl
  have h9 : '9'.val.toNat = 57 := rfl
  omega

theorem toNat_lt_of_isNameChar {c : Char} (h : isNameChar c = true) : c.toNat < 128 := by
  by_cases hc : c = '_'
  · subst hc
    decide
  · apply toNat_lt_of_isAlphanum
    simp only [isNameChar, hc, beq_iff_eq, Bool.or_eq_true, or_false] at h
    simp only [isAlphanum_eq, Bool.or_eq_true]
    exact h.imp_left .inr

theorem isNameChar_sanitize {s : String} {c : Char} (h : c ∈ (sanitize s).toList) :
    isNameChar c = true := by
  rw [sanitize, String.toList_ofList] at h
  obtain ⟨d, _, rfl⟩ := List.mem_map.mp (List.mem_of_mem_take h)
  by_cases hd : d.isAlphanum = true
  · have hascii : ∀ n < 128, (Char.ofNat n).isAlphanum = true →
        isNameChar (Char.ofNat n).toLower = true := by decide
    have hlower := hascii d.toNat (toNat_lt_of_isAlphanum hd)
    rw [Char.ofNat_toNat] at hlower
    rw [if_pos hd]
    exact hlower hd
  · rw [if_neg hd]
    decide

theorem length_sanitize (s : String) : (sanitize s).toList.length ≤ 18 := by
  rw [sanitize, String.toList_ofList, List.length_take]
  exact Nat.min_le_left _ _

theorem isNameChar_toDigits {n : Nat} {c : Char} (h : c ∈ Nat.toDigits 16 n) :
    isNameChar c = true := by
  induction n using Nat.strong_induction_on with
  | _ n ih =>
      have hdigit : ∀ d < 16, isNameChar d.digitChar = true := by decide
      rw [Nat.toDigits_eq_if (by decide)] at h
      split at h
      · rename_i hlt
        rw [List.mem_singleton] at h
        rw [h]
        exact hdigit n hlt
      · rename_i hge
        rw [List.mem_append, List.mem_singleton] at h
        obtain h | h := h
        · exact ih (n / 16) (by omega) h
        · rw [h]
          exact hdigit (n % 16) (Nat.mod_lt _ (by decide))

theorem hex8_spec (n : UInt32) :
    (hex8 n).toList.length = 8 ∧ ∀ c ∈ (hex8 n).toList, isNameChar c = true := by
  have hlength : (Nat.toDigits 16 n.toNat).length ≤ 8 :=
    (Nat.length_toDigits_le_iff (by decide) (by decide)).mpr n.toNat_lt
  rw [hex8, String.toList_ofList]
  constructor
  · rw [List.length_append, List.length_replicate]
    omega
  · intro c hc
    rw [List.mem_append] at hc
    obtain hc | hc := hc
    · rw [List.eq_of_mem_replicate hc]
      decide
    · exact isNameChar_toDigits hc

theorem utf8ByteSize_ofList {cs : List Char} (h : ∀ c ∈ cs, c.toNat < 128) :
    (String.ofList cs).utf8ByteSize = cs.length := by
  induction cs with
  | nil => rfl
  | cons c cs ih =>
      rw [List.forall_mem_cons] at h
      have hone : c.utf8Size = 1 := by
        rw [Char.utf8Size_eq_one_iff, UInt32.le_iff_toNat_le]
        exact Nat.le_of_lt_succ h.1
      rw [String.ofList_cons, String.utf8ByteSize_append, String.utf8ByteSize_singleton, hone,
        ih h.2, List.length_cons, Nat.add_comm]

theorem utf8ByteSize_of_ascii {s : String} (h : ∀ c ∈ s.toList, c.toNat < 128) :
    s.utf8ByteSize = s.toList.length := by
  have hsize := utf8ByteSize_ofList h
  rw [String.ofList_toList] at hsize
  exact hsize

theorem toList_prefixed (front kind path digest : String) :
    (front ++ kind ++ "_" ++ path ++ "_" ++ digest).toList =
      front.toList ++ (kind.toList ++ '_' :: (path.toList ++ '_' :: digest.toList)) := by
  have hline : "_".toList = ['_'] := rfl
  simp only [String.toList_append, List.append_assoc, hline, List.cons_append,
    List.nil_append]

section

variable [IndexHost] (p : Projection)

theorem Projection.toList_indexName :
    p.indexName.toList = "actions_proj_".toList ++ ((sanitize p.kind).toList ++ '_' ::
      ((sanitize ("_".intercalate p.segments)).toList ++ '_' ::
        (hex8 (IndexHost.digest p.kind p.segments p.ty.sqlCast)).toList)) :=
  toList_prefixed _ _ _ _

theorem Projection.isNameChar_indexName : ∀ c ∈ p.indexName.toList, isNameChar c = true := by
  have hall : "actions_proj_".toList.all isNameChar = true := by decide
  have hfront := List.all_eq_true.mp hall
  have hline : isNameChar '_' = true := by decide
  intro c hc
  rw [toList_indexName] at hc
  simp only [List.mem_append, List.mem_cons] at hc
  obtain hc | hc | rfl | hc | rfl | hc := hc
  · exact hfront c hc
  · exact isNameChar_sanitize hc
  · exact hline
  · exact isNameChar_sanitize hc
  · exact hline
  · exact (hex8_spec _).2 c hc

theorem Projection.utf8ByteSize_indexName_le : p.indexName.utf8ByteSize ≤ 63 := by
  rw [utf8ByteSize_of_ascii fun c hc => toNat_lt_of_isNameChar (p.isNameChar_indexName c hc),
    toList_indexName]
  have hfront : "actions_proj_".toList.length = 13 := by decide
  have hkind := length_sanitize p.kind
  have hpath := length_sanitize ("_".intercalate p.segments)
  have hdigest := (hex8_spec (IndexHost.digest p.kind p.segments p.ty.sqlCast)).1
  simp only [List.length_append, List.length_cons]
  omega

theorem Projection.isBareIdentifier_indexName : isBareIdentifier p.indexName = true := by
  have hall := p.isNameChar_indexName
  obtain ⟨rest, hrest⟩ : ∃ rest, p.indexName.toList = 'a' :: rest := ⟨_, p.toList_indexName⟩
  rw [hrest, List.forall_mem_cons] at hall
  rw [isBareIdentifier, hrest]
  have hfirst : ('a'.isLower || 'a' == '_') = true := by decide
  simp only [hfirst, Bool.true_and, List.all_eq_true]
  exact hall.2

end

/-! ## Reading the statement -/

theorem isIdentPart_of_isNameChar {c : Char} (h : isNameChar c = true) :
    isIdentPart c = true := by
  simp only [isNameChar, isIdentPart, isAlphanum_eq, Bool.or_eq_true] at h ⊢
  exact .inl (h.imp_left fun h => h.imp_left .inr)

theorem notMem_of_isSafeSegment {segment : String} (h : isSafeSegment segment = true) :
    '\'' ∉ segment.toList ∧ '\\' ∉ segment.toList := by
  simp only [isSafeSegment, Bool.and_eq_true, List.all_eq_true] at h
  constructor
  · intro hin
    exact absurd (h.2 '\'' hin) (by decide)
  · intro hin
    exact absurd (h.2 '\\' hin) (by decide)

/-- The steps of an accessor. -/
def arrows : List String → List Char
  | [] => []
  | [last] => "->>'".toList ++ (last.toList ++ ['\''])
  | segment :: rest => "->'".toList ++ (segment.toList ++ ['\'']) ++ arrows rest

def arrowTokens : List String → List Token
  | [] => []
  | [last] => [.op "->>".toList, .text last.toList]
  | segment :: rest => .op "->".toList :: .text segment.toList :: arrowTokens rest

/-- `payload`, an arrow and a key for every segment but the last, and `->>` and the key of
the last. -/
def accessorTokens (segments : List String) : List Token :=
  .word "payload".toList :: arrowTokens segments

theorem arrows_eq {segments : List String} (h : segments ≠ []) (expr : String) :
    (segments.dropLast.foldl (fun expr segment => expr ++ ("->'" ++ segment ++ "'")) expr ++
      ("->>'" ++ segments.getLast h ++ "'")).toList = expr.toList ++ arrows segments := by
  induction segments generalizing expr with
  | nil => exact absurd rfl h
  | cons segment rest ih =>
      have hquote : "'".toList = ['\''] := rfl
      cases rest with
      | nil =>
          rw [List.dropLast_singleton, List.foldl_nil, List.getLast_singleton, arrows]
          simp only [String.toList_append, List.append_assoc, hquote]
      | cons next rest =>
          have hrest := ih (List.cons_ne_nil next rest) (expr ++ ("->'" ++ segment ++ "'"))
          rw [List.dropLast_cons_cons, List.foldl_cons, List.getLast_cons (List.cons_ne_nil _ _),
            hrest, arrows.eq_3 segment (next :: rest) (by simp)]
          simp only [String.toList_append, List.append_assoc, hquote]

/-- A mode in a word or behind a constant, which the next operator or parenthesis ends. -/
structure EndsWith (m : Mode) (t : Token) : Prop where
  pending : m.pending = some [t]
  minus : step ⟨m, []⟩ '-' = some ⟨.op ['-'], [t]⟩
  paren : step ⟨m, []⟩ ')' = some ⟨.between false, [t, .punct ')']⟩

theorem endsWith_word (text : List Char) : EndsWith (.word text) (.word text) := ⟨rfl, rfl, rfl⟩

theorem endsWith_closing (text : List Char) : EndsWith (.closing text) (.text text) :=
  ⟨rfl, rfl, rfl⟩

theorem reads_arrow {m : Mode} {t : Token} (h : EndsWith m t) {key : List Char}
    (hkey : '\'' ∉ key) :
    Reads m ("->'".toList ++ (key ++ ['\''])) (.closing key) [t, .op "->".toList] := by
  have hop : Reads (.op ['-']) ['>', '\''] (.inside []) [.op "->".toList] := rfl
  exact Reads.cons h.minus (hop.append (reads_plain hkey))

theorem reads_last_arrow {m : Mode} {t : Token} (h : EndsWith m t) {key : List Char}
    (hkey : '\'' ∉ key) :
    Reads m ("->>'".toList ++ (key ++ ['\''])) (.closing key) [t, .op "->>".toList] := by
  have hop : Reads (.op ['-']) ['>', '>', '\''] (.inside []) [.op "->>".toList] := rfl
  exact Reads.cons h.minus (hop.append (reads_plain hkey))

/-- The steps of an accessor behind a token, up to the last key. -/
theorem reads_arrows {m : Mode} {t : Token} (h : EndsWith m t) {segments : List String}
    (hne : segments ≠ []) (hsafe : ∀ s ∈ segments, isSafeSegment s = true) :
    ∃ m' t' done, EndsWith m' t' ∧ Reads m (arrows segments) m' done ∧
      done ++ [t'] = t :: arrowTokens segments := by
  induction segments generalizing m t with
  | nil => exact absurd rfl hne
  | cons segment rest ih =>
      rw [List.forall_mem_cons] at hsafe
      have hkey := (notMem_of_isSafeSegment hsafe.1).1
      cases rest with
      | nil =>
          exact ⟨_, _, _, endsWith_closing segment.toList, reads_last_arrow h hkey, rfl⟩
      | cons next rest =>
          obtain ⟨m', t', done, hends, hreads, htokens⟩ :=
            ih (endsWith_closing segment.toList) (List.cons_ne_nil next rest) hsafe.2
          refine ⟨m', t', _, hends, (reads_arrow h hkey).append hreads, ?_⟩
          rw [List.append_assoc, htokens]
          rfl

theorem reads_cast (ty : ProjectionType) :
    Reads (.between false) ty.sqlCast.toList (.word ty.sqlCast.toList) [] := by
  cases ty <;> rfl

namespace Projection

variable (p : Projection)

theorem toList_jsonAccessor :
    p.jsonAccessor.toList = "payload".toList ++ arrows p.segments := by
  rw [jsonAccessor]
  exact arrows_eq p.nonempty "payload"

theorem reads_jsonAccessor :
    ∃ m t done, EndsWith m t ∧ Reads (.between false) p.jsonAccessor.toList m done ∧
      done ++ [t] = accessorTokens p.segments := by
  have hpayload : Reads (.between false) "payload".toList (.word "payload".toList) [] := rfl
  obtain ⟨m, t, done, hends, hreads, htokens⟩ :=
    reads_arrows (endsWith_word "payload".toList) p.nonempty p.safe
  rw [toList_jsonAccessor]
  exact ⟨m, t, [] ++ done, hends, hpayload.append hreads, htokens⟩

theorem lex_jsonAccessor : lex p.jsonAccessor = some (accessorTokens p.segments) := by
  obtain ⟨m, t, done, hends, hreads, htokens⟩ := p.reads_jsonAccessor
  rw [lex_of_reads hreads hends.pending, htokens]

/-- An accessor in parentheses with a cast behind it. -/
theorem reads_expression : Reads (.between false)
    (p.jsonAccessor ++ ")::" ++ p.ty.sqlCast).toList (.word p.ty.sqlCast.toList)
      (accessorTokens p.segments ++ [.punct ')', .typecast]) := by
  obtain ⟨m, t, done, hends, hreads, htokens⟩ := p.reads_jsonAccessor
  have hcolons : Reads (.between false) "::".toList (.between false) [.typecast] := rfl
  have hparen : Reads m (')' :: "::".toList) (.between false)
      ([t, .punct ')'] ++ [.typecast]) := Reads.cons hends.paren hcolons
  have hclose : ")::".toList = ')' :: "::".toList := rfl
  have hall := hreads.append (hparen.append (reads_cast p.ty))
  have hdone : done ++ ([t, .punct ')'] ++ [.typecast] ++ []) =
      accessorTokens p.segments ++ [.punct ')', .typecast] := by
    rw [← htokens, List.append_assoc done [t]]
    rfl
  rw [hdone] at hall
  rw [String.toList_append, String.toList_append, List.append_assoc, hclose]
  exact hall

/-- The tokens of the statement: its own words, the accessor, and one constant at the end. -/
def createIndexTokens [IndexHost] (p : Projection) : List Token :=
  [.word "CREATE".toList, .word "INDEX".toList, .word "IF".toList, .word "NOT".toList,
      .word "EXISTS".toList, .word p.indexName.toList, .word "ON".toList,
      .word "actions".toList, .punct '(', .punct '(', .punct '('] ++
    (accessorTokens p.segments ++ [.punct ')', .typecast]) ++
    [.word p.ty.sqlCast.toList, .punct ')', .punct ')', .word "WHERE".toList,
      .word "kind".toList, .op "=".toList] ++
    [.text p.kind.toList]

def clauseTokens (p : Projection) : List Token :=
  [.word "AND".toList, .punct '(', .punct '('] ++
    (accessorTokens p.segments ++ [.punct ')', .typecast]) ++
    [.word p.ty.sqlCast.toList, .punct ')', .op "=".toList, .punct '(', .param "6".toList,
      .typecast, .word "TEXT".toList, .punct ')', .typecast, .word p.ty.sqlCast.toList]

theorem toList_pieces (head name table accessor colons cast condition kind close : String) :
    (head ++ name ++ table ++ accessor ++ colons ++ cast ++ condition ++ kind ++ close).toList =
      head.toList ++ (name.toList ++ (table.toList ++ ((accessor ++ colons ++ cast).toList ++
        (condition.toList ++ (kind.toList ++ close.toList))))) := by
  simp only [String.toList_append, List.append_assoc]

theorem lex_createIndexSql [IndexHost] : lex p.createIndexSql = some p.createIndexTokens := by
  have hname : Reads (.between false) p.indexName.toList (.word p.indexName.toList) [] := by
    have hall := p.isNameChar_indexName
    obtain ⟨rest, hrest⟩ : ∃ rest, p.indexName.toList = 'a' :: rest := ⟨_, p.toList_indexName⟩
    rw [hrest, List.forall_mem_cons] at hall
    rw [hrest]
    exact reads_word (by decide) (fun c hc => isIdentPart_of_isNameChar (hall.2 c hc)) false
  have hhead : Reads (.between false) "CREATE INDEX IF NOT EXISTS ".toList (.between false)
      [.word "CREATE".toList, .word "INDEX".toList, .word "IF".toList, .word "NOT".toList,
        .word "EXISTS".toList] := rfl
  have htable : Reads (.word p.indexName.toList) " ON actions (((".toList (.between false)
      [.word p.indexName.toList, .word "ON".toList, .word "actions".toList, .punct '(',
        .punct '(', .punct '('] := rfl
  have hwhere : Reads (.word p.ty.sqlCast.toList) ")) WHERE kind = '".toList (.inside [])
      [.word p.ty.sqlCast.toList, .punct ')', .punct ')', .word "WHERE".toList,
        .word "kind".toList, .op "=".toList] := rfl
  have hkind : Reads (.inside []) ((replaceChar '\'' "''" p.kind).toList ++ "'".toList)
      (.closing p.kind.toList) [] := by
    have hdoubled := reads_doubled p.kind.toList
    rw [← toList_replaceChar_twice] at hdoubled
    exact hdoubled
  have hall := hhead.append (hname.append (htable.append (p.reads_expression.append
    (hwhere.append hkind))))
  have htext : p.createIndexSql.toList = "CREATE INDEX IF NOT EXISTS ".toList ++
      (p.indexName.toList ++ (" ON actions (((".toList ++
        ((p.jsonAccessor ++ ")::" ++ p.ty.sqlCast).toList ++ (")) WHERE kind = '".toList ++
          ((replaceChar '\'' "''" p.kind).toList ++ "'".toList))))) :=
    toList_pieces _ _ _ _ _ _ _ _ _
  rw [← htext] at hall
  rw [lex_of_reads hall (endsWith_closing p.kind.toList).pending]
  simp only [createIndexTokens, List.append_assoc, List.cons_append, List.nil_append]

theorem lex_clauseSql : lex p.clauseSql = some p.clauseTokens := by
  have hhead : Reads (.between false) " AND ((".toList (.between false)
      [.word "AND".toList, .punct '(', .punct '('] := rfl
  have hparam : Reads (.word p.ty.sqlCast.toList) ") = ($6::TEXT)::".toList (.between false)
      [.word p.ty.sqlCast.toList, .punct ')', .op "=".toList, .punct '(', .param "6".toList,
        .typecast, .word "TEXT".toList, .punct ')', .typecast] := rfl
  have hall := hhead.append (p.reads_expression.append (hparam.append (reads_cast p.ty)))
  have htext : p.clauseSql.toList = " AND ((".toList ++
      ((p.jsonAccessor ++ ")::" ++ p.ty.sqlCast).toList ++ (") = ($6::TEXT)::".toList ++
        p.ty.sqlCast.toList)) := by
    simp only [clauseSql, String.toList_append, List.append_assoc]
  rw [← htext] at hall
  rw [lex_of_reads hall (endsWith_word p.ty.sqlCast.toList).pending]
  simp only [clauseTokens, List.append_assoc, List.cons_append, List.nil_append]

end Projection

/-! ## Accepted configurations -/

theorem Projection.of_parse {kind : String} {raw : RawIndex} {p : Projection}
    (h : Projection.parse kind raw = .ok p) :
    p.kind = kind ∧ p.segments = fieldSegments raw.path := by
  unfold Projection.parse at h
  cases hty : ProjectionType.parse raw.type with
  | none =>
      rw [hty] at h
      cases h
  | some ty =>
      rw [hty] at h
      by_cases hsafe : ∀ s ∈ fieldSegments raw.path, isSafeSegment s = true
      · simp only [dif_pos hsafe, Except.ok.injEq] at h
        subst h
        exact ⟨rfl, rfl⟩
      · simp only [dif_neg hsafe] at h
        cases h

/-- Every projection is one that was there or one that an entry declares. -/
theorem mem_projections_of_foldlM {kinds : List RawKind} {before after : ParsedSchema}
    (h : kinds.foldlM ParsedSchema.push before = .ok after) {p : Projection}
    (hp : p ∈ after.projections) :
    p ∈ before.projections ∨ ∃ entry ∈ kinds, ∃ raw ∈ entry.index,
      p.kind = entry.name ∧ p.segments = fieldSegments raw.path := by
  induction kinds generalizing before with
  | nil =>
      cases h
      exact .inl hp
  | cons entry kinds ih =>
      rw [List.foldlM_cons] at h
      cases hpush : before.push entry with
      | error e =>
          rw [hpush] at h
          cases h
      | ok mid =>
          rw [hpush] at h
          obtain ⟨roles, projections, -, hindex, rfl⟩ := ParsedSchema.push_spec hpush
          obtain hold | ⟨other, hother, hdeclared⟩ := ih h
          · refine (List.mem_append.mp hold).imp_right fun hnew => ?_
            obtain ⟨raw, hraw, hparse⟩ := (mem_mapM_ok hindex).mp hnew
            exact ⟨entry, List.mem_cons_self, raw, hraw, Projection.of_parse hparse⟩
          · exact .inr ⟨other, List.mem_cons_of_mem _ hother, hdeclared⟩

/-- Whatever a file declares and the parser accepts, the name of the index is an identifier
that is not cut off, the accessor leads along the declared segments, and in both statements
the text of the file is where a key or a constant is read. -/
theorem kind_schema_cannot_inject [IndexHost] {config : RawConfig} {parsed : ParsedSchema}
    (hparse : KindSchema.parse config = .ok parsed) {p : Projection}
    (hp : p ∈ parsed.projections) :
    (∃ entry ∈ config.kind, ∃ raw ∈ entry.index,
        p.kind = entry.name ∧ p.segments = fieldSegments raw.path) ∧
      (isBareIdentifier p.indexName = true ∧ p.indexName.utf8ByteSize ≤ 63) ∧
      lex p.jsonAccessor = some (accessorTokens p.segments) ∧
      (∀ segment ∈ p.segments, '\'' ∉ segment.toList ∧ '\\' ∉ segment.toList) ∧
      lex p.createIndexSql = some p.createIndexTokens ∧
      lex p.clauseSql = some p.clauseTokens := by
  have hdeclared : p ∈ ({} : ParsedSchema).projections ∨ _ := mem_projections_of_foldlM hparse hp
  refine ⟨hdeclared.resolve_left List.not_mem_nil,
    ⟨p.isBareIdentifier_indexName, p.utf8ByteSize_indexName_le⟩, p.lex_jsonAccessor, ?_,
    p.lex_createIndexSql, p.lex_clauseSql⟩
  intro segment hsegment
  exact notMem_of_isSafeSegment (p.safe segment hsegment)

/-- A kind whose name would end its constant if quotes were not doubled. -/
def quotedKind : RawConfig where
  kind := [{ name := "é'; DROP TABLE actions; --", index := [{ path := "$.to.address" }] }]

theorem kind_schema_cannot_inject_quotes :
    ∃ parsed, KindSchema.parse quotedKind = .ok parsed ∧ ∃ p ∈ parsed.projections,
      p.kind = "é'; DROP TABLE actions; --" ∧ p.segments = ["to", "address"] ∧
        lex (@Projection.createIndexSql .plain p) =
          some (@Projection.createIndexTokens .plain p) := by
  have hparse : KindSchema.parse quotedKind = .ok _ := rfl
  refine ⟨_, hparse, _, List.mem_singleton_self _, rfl, rfl, ?_⟩
  exact (@kind_schema_cannot_inject .plain _ _ hparse _ (List.mem_singleton_self _)).2.2.2.2.1

end Retracer
