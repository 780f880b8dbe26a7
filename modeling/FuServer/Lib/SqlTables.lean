import Mathlib.Logic.Function.Basic
import FuServer.Lib.HashMap
import FuServer.Lib.SqlText
import FuServer.Lib.SqlWhere

/-!
# Databases that read statements

`parse` reads an `insert` or `update` off the tokens of a text, and `exec`
runs the text on the tables of a database, which are stored under their
primary keys: a row whose key is there is refused, and so is whatever is no
statement.  Texts compare byte by byte.
-/

namespace SqlTables

open Bytes SqlText SqlToken SqlWhere

/-! ## Reading -/

theorem noNul_of_isName {reserved : List Str} {w : Str} (h : IsName reserved w) : NoNul w := by
  rintro c hc rfl
  exact h.notMem (by decide) hc

/-- A name that needs no delimiters: no `#` starts a comment in it, no `@` a variable. -/
def IsIdentifier (reserved : List Str) (w : Str) : Prop := IsName reserved w ∧ 35 ∉ w ∧ 64 ∉ w

instance (reserved : List Str) (w : Str) : Decidable (IsIdentifier reserved w) :=
  inferInstanceAs (Decidable (_ ∧ _))

/-- Names with commas between them, and the bracket behind. -/
def parseNames : List Token → Option (List Str × List Token)
  | .word c :: .symbol 44 :: ts => (parseNames ts).map fun p => (c :: p.1, p.2)
  | .word c :: .symbol 41 :: ts => some ([c], ts)
  | _ => none

/-- Values with commas between them, and the bracket behind. -/
def parseValues : List Token → Option (List Str × List Token)
  | .value v :: .symbol 44 :: ts => (parseValues ts).map fun p => (v :: p.1, p.2)
  | .value v :: .symbol 41 :: ts => some ([v], ts)
  | _ => none

/-- Assignments with commas between them. -/
def parseSets : List Token → Option (List (Str × Str) × List Token)
  | .word c :: .symbol 61 :: .value v :: .symbol 44 :: ts => (parseSets ts).map fun p =>
    ((c, v) :: p.1, p.2)
  | .word c :: .symbol 61 :: .value v :: ts => some ([(c, v)], ts)
  | _ => none

/-- Behind `insert into table(`. -/
def parseInsert (reserved : List Str) (table : Str) (ts : List Token) : Option Stmt :=
  match parseNames ts with
  | some (cols, .word w :: .symbol 40 :: ts) =>
    match parseValues ts with
    | some (vals, [.symbol 59]) =>
      if lower w = lit "values" ∧ IsName reserved table ∧ ∀ c ∈ cols, IsName reserved c then
        some (.insert table cols vals)
      else none
    | _ => none
  | _ => none

/-- Behind `update table set`. -/
def parseUpdate (reserved : List Str) (table : Str) (ts : List Token) : Option Stmt :=
  match parseSets ts with
  | some (sets, [.word w, .word key, .symbol 61, .value val, .symbol 59]) =>
    if lower w = lit "where" ∧ IsName reserved table ∧ IsName reserved key ∧
      ∀ s ∈ sets, IsName reserved s.1 then
      some (.update table sets key val)
    else none
  | _ => none

/-- The statement a list of tokens is; `reserved` are the further words of the server. -/
def parse (reserved : List Str) : List Token → Option Stmt
  | .word w :: .word w' :: .word table :: .symbol 40 :: ts =>
    if lower w = lit "insert" ∧ lower w' = lit "into" then parseInsert reserved table ts else none
  | .word w :: .word table :: .word w' :: ts =>
    if lower w = lit "update" ∧ lower w' = lit "set" then parseUpdate reserved table ts else none
  | _ => none

/-- The rows of a table with a value in a column: the table, the column and the value. -/
def parseSelect (reserved : List Str) : List Token → Option (Str × Str × Str)
  | .word s :: .symbol 42 :: .word f :: .word table :: .word w :: .word c :: .symbol 61 ::
    .value v :: ts =>
    if lower s = lit "select" ∧ lower f = lit "from" ∧ lower w = lit "where" ∧ IsName reserved table ∧
        IsName reserved c ∧ (ts = [] ∨ ts = [.symbol 59]) then
      some (table, c, v)
    else none
  | _ => none

/-- The statement a text is. -/
def read (reserved : List Str) (text : Str) : Option Stmt :=
  (code text).bind fun e => parse reserved (tokens e)

/-- The select a text is. -/
def readSelect (reserved : List Str) (text : Str) : Option (Str × Str × Str) :=
  (code text).bind fun e => parseSelect reserved (tokens e)

/-! ## What is written is read -/

section Read

variable {reserved : List Str} {table : Str}

/-- A comma, with blanks behind it or without. -/
structure Comma (sep : Str) : Prop where
  head : ∃ blanks, sep = 44 :: blanks
  scan : ∀ t, scan [] (sep ++ t) = .symbol 44 :: scan [] t
  plain : 39 ∉ sep

theorem comma : Comma (lit ",") := ⟨⟨[], rfl⟩, fun _ => rfl, by decide⟩

theorem comma_blank : Comma (lit ", ") := ⟨⟨lit " ", rfl⟩, fun _ => rfl, by decide⟩

section Comma

variable {sep : Str}

theorem Comma.scan_self (h : Comma sep) : SqlWhere.scan [] sep = [.symbol 44] := by
  have hscan := h.scan []
  rwa [List.append_nil] at hscan

theorem Comma.closed (h : Comma sep) : Closed sep := by
  intro t
  rw [h.scan, h.scan_self]
  rfl

theorem Comma.ne_nil (h : Comma sep) : sep ≠ [] := by
  obtain ⟨blanks, rfl⟩ := h.head
  exact List.cons_ne_nil 44 blanks

theorem Comma.endsQuote (h : Comma sep) (t : Str) : EndsQuote (sep ++ t) := by
  obtain ⟨blanks, rfl⟩ := h.head
  intro t' ht
  exact absurd (List.cons.inj ht).1 (by decide)

/-- A name, a comma and what follows. -/
theorem Comma.scan_name (h : Comma sep) {c : Str} (hc : IsName reserved c) (t : Str) :
    SqlWhere.scan [] (c ++ (sep ++ t)) = .word c :: .symbol 44 :: SqlWhere.scan [] t := by
  have hrest := h.scan t
  obtain ⟨blanks, rfl⟩ := h.head
  have htext : c ++ (44 :: blanks ++ t) = c ++ [44] ++ (blanks ++ t) := by
    rw [List.append_assoc]
    rfl
  rw [List.cons_append, scan_cons (by decide)] at hrest
  rw [htext, closed_concat (by decide) c, hc.scan (c := 44) (by decide)]
  exact congrArg (Token.word c :: ·) hrest

theorem parseNames_scan (h : Comma sep) {cols : List Str} (hne : cols ≠ [])
    (hc : ∀ c ∈ cols, IsName reserved c)
    (ts : List Token) : parseNames (scan [] (sep.intercalate cols ++ [41]) ++ ts) = some (cols, ts) := by
  induction cols with
  | nil => exact absurd rfl hne
  | cons c cols ih =>
    have hname := hc c List.mem_cons_self
    cases cols with
    | nil =>
      rw [List.intercalate_singleton, hname.scan (c := 41) (by decide)]
      rfl
    | cons c' cols =>
      have hrest := ih (List.cons_ne_nil c' cols) fun d hd => hc d (List.mem_cons_of_mem c hd)
      rw [intercalate_cons_cons, List.append_assoc, List.append_assoc, h.scan_name hname]
      show (parseNames (scan [] (sep.intercalate (c' :: cols) ++ [41]) ++ ts)).map _ = _
      rw [hrest]
      rfl

end Comma

theorem parseValues_listed {vals : List Str} (hne : vals ≠ []) (ts : List Token) :
    parseValues ([Token.symbol 44].intercalate (vals.map fun v => [.value v]) ++ .symbol 41 :: ts) =
      some (vals, ts) := by
  induction vals with
  | nil => exact absurd rfl hne
  | cons v vals ih =>
    cases vals with
    | nil => rfl
    | cons v' vals =>
      have hrest := ih (List.cons_ne_nil v' vals)
      rw [List.map_cons, List.map_cons, List.intercalate_cons_cons, List.append_assoc, List.append_assoc]
      rw [List.map_cons] at hrest
      show (parseValues ([Token.symbol 44].intercalate ([.value v'] :: _) ++ _)).map _ = _
      rw [hrest]
      rfl

theorem parseSets_listed {sets : List (Str × Str)} (hne : sets ≠ []) (ts : List Token)
    (hts : ∀ us, ts ≠ .symbol 44 :: us) :
    parseSets ([Token.symbol 44].intercalate
      (sets.map fun s => [.word s.1, .symbol 61, .value s.2]) ++ ts) =
      some (sets, ts) := by
  induction sets with
  | nil => exact absurd rfl hne
  | cons s sets ih =>
    cases sets with
    | nil =>
      rw [List.map_singleton, List.intercalate_singleton]
      show parseSets (.word s.1 :: .symbol 61 :: .value s.2 :: ts) = _
      rw [parseSets]
      intro us hus
      exact hts us hus
    | cons s' sets =>
      have hrest := ih (List.cons_ne_nil s' sets)
      rw [List.map_cons, List.map_cons, List.intercalate_cons_cons, List.append_assoc, List.append_assoc]
      rw [List.map_cons] at hrest
      show (parseSets ([Token.symbol 44].intercalate ([.word s'.1, .symbol 61, .value s'.2] :: _) ++
        ts)).map _ = _
      rw [hrest]
      rfl

/-- A text is read as it was put together when neither its code nor its values have a quote. -/
theorem read_render {e : Cut} (h : Spaced e) (hcode : 39 ∉ e.codeText)
    (hvalues : ∀ v ∈ e.values, 39 ∉ v) :
    read reserved (render e) = parse reserved (tokens e) := by
  unfold read
  rw [(code_render_iff h).mpr ⟨hcode, hvalues⟩]
  rfl

theorem notMem_intercalate {sep : Str} (hsep : 39 ∉ sep) {cols : List Str}
    (h : ∀ c ∈ cols, IsName reserved c) :
    39 ∉ sep.intercalate cols := by
  rw [mem_intercalate hsep]
  rintro ⟨c, hc, hm⟩
  exact (h c hc).notMem (by decide) hm

/-- The text of an insertion with its values apart. -/
def insertCut (sep table : Str) (cols vals : List Str) : Cut :=
  listed sep (lit "insert into " ++
    ((table ++ [40]) ++ ((sep.intercalate cols ++ [41]) ++ lit " values(")))
    (vals.map fun v => ([], v)) (lit ");", [])

theorem render_insertCut (table : Str) (cols : List Str) {vals : List Str} (hv : vals ≠ []) :
    render (insertCut (lit ", ") table cols vals) = (Stmt.insert table cols vals).text := by
  have hitems : vals.map (fun v => (([] : Str), v)) ≠ [] := by simpa using hv
  have hquoted : (vals.map fun v => (([] : Str), v)).map itemText = vals.map quoted := by
    rw [List.map_map]
    rfl
  unfold insertCut
  rw [render_listed _ _ hitems, hquoted, ← commaSep_eq, ← commaSep_eq, text_insert, render_nil]
  simp only [List.append_assoc]
  rfl

/-- An insertion is understood, with blanks behind its commas or without. -/
theorem parse_insertCut {sep : Str} (hsep : Comma sep) (ht : IsName reserved table)
    {cols vals : List Str} (hne : cols ≠ []) (hc : ∀ c ∈ cols, IsName reserved c) (hv : vals ≠ []) :
    parse reserved (tokens (insertCut sep table cols vals)) = some (.insert table cols vals) := by
  have hitems : vals.map (fun v => (([] : Str), v)) ≠ [] := by simpa using hv
  have hinto : Closed (lit "insert into ") := closed_concat (c := 32) (by decide) (lit "insert into")
  have hhead : Closed (lit "insert into " ++
      ((table ++ [40]) ++ ((sep.intercalate cols ++ [41]) ++ lit " values("))) := by
    have hend : lit "insert into " ++
        ((table ++ [40]) ++ ((sep.intercalate cols ++ [41]) ++ lit " values(")) =
        (lit "insert into " ++
            ((table ++ [40]) ++ ((sep.intercalate cols ++ [41]) ++ lit " values"))) ++ [40] := by
      simp only [List.append_assoc]
      rfl
    rw [hend]
    exact closed_concat (by decide) _
  have hvalues : (vals.map fun v => (([] : Str), v)).map (fun x => scan [] x.1 ++ [Token.value x.2]) =
      vals.map fun v => [.value v] := by
    rw [List.map_map]
    rfl
  have htokens : tokens (insertCut sep table cols vals) =
      .word (lit "insert") :: .word (lit "into") :: .word table :: .symbol 40 ::
        (scan [] (sep.intercalate cols ++ [41]) ++ (.word (lit "values") :: .symbol 40 ::
          ([Token.symbol 44].intercalate (vals.map fun v => [.value v]) ++
              [.symbol 41, .symbol 59]))) := by
    unfold insertCut
    rw [tokens_listed hsep.closed hhead hitems, hvalues, hsep.scan_self, hinto,
      closed_concat (by decide) table, ht.scan (c := 40) (by decide),
        closed_concat (by decide) (sep.intercalate cols)]
    simp only [List.append_assoc]
    rfl
  rw [htokens, parse, if_pos ⟨rfl, rfl⟩, parseInsert, parseNames_scan hsep hne hc]
  simp only [parseValues_listed hv]
  rw [if_pos ⟨rfl, ht, hc⟩]

/-- An insertion is read back. -/
theorem read_insert (ht : IsName reserved table) {cols vals : List Str} (hne : cols ≠ [])
    (hc : ∀ c ∈ cols, IsName reserved c) (hv : vals ≠ []) (hplain : ∀ v ∈ vals, 39 ∉ v) :
    read reserved (Stmt.insert table cols vals).text = some (.insert table cols vals) := by
  have hitems : vals.map (fun v => (([] : Str), v)) ≠ [] := by simpa using hv
  rw [← render_insertCut table cols hv, read_render, parse_insertCut comma_blank ht hne hc hv]
  · refine spaced_listed _ _ (by decide) comma_blank.endsQuote ⟨by decide, fun t h => ?_⟩ nofun
    exact absurd (List.cons.inj h).1 (by decide)
  · unfold insertCut
    rw [codeText_listed _ _ hitems, List.map_map]
    have hitem : ∀ c ∈ vals.map (Prod.fst ∘ fun v => (([] : Str), v)), 39 ∉ c := by
      intro c hcm
      obtain ⟨v, -, rfl⟩ := List.mem_map.mp hcm
      exact List.not_mem_nil
    simp only [List.mem_append, not_or]
    refine ⟨⟨⟨by decide, ⟨ht.notMem (by decide), by decide⟩,
      ⟨notMem_intercalate (by decide) hc, by decide⟩, by decide⟩, ?_⟩, by decide⟩
    rw [mem_intercalate (by decide)]
    rintro ⟨c, hcm, hm⟩
    exact hitem c hcm hm
  · unfold insertCut
    rw [values_listed, List.map_map]
    intro v hvm
    rcases List.mem_append.mp hvm with hvm | hvm
    · obtain ⟨v', hv', rfl⟩ := List.mem_map.mp hvm
      exact hplain v' hv'
    · cases hvm

/-- What an update starts with. -/
def updateHead (table : Str) : Str := lit "update " ++ ((table ++ [32]) ++ lit "set ")

/-- The text of an update with its values apart. -/
def updateCut (sep table : Str) (sets : List (Str × Str)) (key val : Str) : Cut :=
  listed sep (updateHead table) (sets.map fun s => (s.1 ++ [61], s.2))
    (lit " where " ++ (key ++ [61]), [(val, lit ";")])

theorem render_updateCut (sep table : Str) {sets : List (Str × Str)} (hs : sets ≠ []) (key val : Str) :
    render (updateCut sep table sets key val) = updateText sep table sets key val := by
  have hitems : sets.map (fun s => (s.1 ++ [61], s.2)) ≠ [] := by simpa using hs
  have hset : (sets.map fun s => (s.1 ++ [61], s.2)).map itemText = sets.map setText := by
    rw [List.map_map]
    apply List.map_congr_left
    intro s _
    show s.1 ++ [61] ++ 39 :: s.2 ++ [39] = s.1 ++ lit "=" ++ (lit "'" ++ s.2 ++ lit "'")
    simp only [List.append_assoc]
    rfl
  unfold updateCut updateHead updateText
  rw [render_listed _ _ hitems, hset, render_cons, render_nil]
  unfold setText quoted
  simp only [List.append_assoc]
  rfl

theorem closed_updateHead (table : Str) : Closed (updateHead table) := by
  have hend : updateHead table = (lit "update " ++ ((table ++ [32]) ++ lit "set")) ++ [32] := by
    unfold updateHead
    simp only [List.append_assoc]
    rfl
  rw [hend]
  exact closed_concat (by decide) _

theorem scan_updateHead (ht : IsName reserved table) :
    scan [] (updateHead table) = [.word (lit "update"), .word table, .word (lit "set")] := by
  have hupdate : Closed (lit "update ") := closed_concat (c := 32) (by decide) (lit "update")
  unfold updateHead
  rw [hupdate, closed_concat (by decide) table, ht.scan (c := 32) (by decide)]
  rfl

/-- A literal is followed by a separator, by ` where ` or by the end. -/
theorem spaced_updateCut {sep : Str} (hne : sep ≠ []) (hend : ∀ t, EndsQuote (sep ++ t)) (table : Str)
    (sets : List (Str × Str)) (key val : Str) : Spaced (updateCut sep table sets key val) := by
  refine spaced_listed _ _ hne hend ⟨List.cons_ne_nil _ _, fun t h => ?_⟩ ?_
  · exact absurd (List.cons.inj h).1 (by decide)
  · intro p hp
    rw [List.mem_singleton.mp hp]
    exact ⟨List.cons_ne_nil _ _, fun t h => absurd (List.cons.inj h).1 (by decide)⟩

/-- The code of an update has no quote when its names have none. -/
theorem codeText_updateCut {sep : Str} (hsep : 39 ∉ sep) (ht : IsName reserved table)
    {sets : List (Str × Str)} (hs : sets ≠ []) (hsets : ∀ s ∈ sets, IsName reserved s.1) {key : Str}
    (hk : IsName reserved key) (val : Str) :
    39 ∉ (updateCut sep table sets key val).codeText := by
  have hitems : sets.map (fun s => (s.1 ++ [61], s.2)) ≠ [] := by simpa using hs
  have hitem : ∀ c ∈ sets.map (Prod.fst ∘ fun s => (s.1 ++ [61], s.2)), 39 ∉ c := by
    intro c hcm
    obtain ⟨s, hm, rfl⟩ := List.mem_map.mp hcm
    rw [Function.comp_apply, List.mem_append]
    exact not_or.mpr ⟨(hsets s hm).notMem (by decide), by decide⟩
  have hhead : 39 ∉ updateHead table := by
    simp only [updateHead, List.mem_append, not_or]
    exact ⟨by decide, ⟨ht.notMem (by decide), by decide⟩, by decide⟩
  unfold updateCut
  rw [codeText_listed _ _ hitems, List.map_map]
  simp only [List.mem_append, not_or, mem_intercalate hsep, Cut.codeText, List.flatMap_singleton]
  refine ⟨⟨hhead, ?_⟩, ⟨by decide, hk.notMem (by decide), by decide⟩, by decide⟩
  rintro ⟨c, hcm, hm⟩
  exact hitem c hcm hm

theorem values_updateCut (sep table : Str) (sets : List (Str × Str)) (key val : Str) :
    (updateCut sep table sets key val).values = sets.map (·.2) ++ [val] := by
  unfold updateCut
  rw [values_listed, List.map_map]
  rfl

theorem tokens_updateCut {sep : Str} (hsep : SqlWhere.Closed sep) (ht : IsName reserved table)
    {sets : List (Str × Str)} (hs : sets ≠ []) (hsets : ∀ s ∈ sets, IsName reserved s.1) {key : Str}
    (hk : IsName reserved key) (val : Str) :
    tokens (updateCut sep table sets key val) =
      .word (lit "update") :: .word table :: .word (lit "set") ::
        ((scan [] sep).intercalate (sets.map fun s => [.word s.1, .symbol 61, .value s.2]) ++
          [.word (lit "where"), .word key, .symbol 61, .value val, .symbol 59]) := by
  have hitems : sets.map (fun s => (s.1 ++ [61], s.2)) ≠ [] := by simpa using hs
  have hwhere : Closed (lit " where ") := closed_concat (c := 32) (by decide) (lit " where")
  have hset : (sets.map fun s => (s.1 ++ [61], s.2)).map (fun x => scan [] x.1 ++ [Token.value x.2]) =
      sets.map fun s => [.word s.1, .symbol 61, .value s.2] := by
    rw [List.map_map]
    apply List.map_congr_left
    intro s hm
    show scan [] (s.1 ++ [61]) ++ [.value s.2] = _
    rw [(hsets s hm).scan (c := 61) (by decide)]
    rfl
  unfold updateCut
  rw [tokens_listed hsep (closed_updateHead table) hitems, hset, scan_updateHead ht, tokens_cons, hwhere,
    hk.scan (c := 61) (by decide)]
  simp only [List.append_assoc]
  rfl

/-- An update is understood. -/
theorem parse_updateCut {sep : Str} (hsep : Comma sep) (ht : IsName reserved table)
    {sets : List (Str × Str)} (hs : sets ≠ []) (hsets : ∀ s ∈ sets, IsName reserved s.1) {key : Str}
    (hk : IsName reserved key) (val : Str) :
    parse reserved (tokens (updateCut sep table sets key val)) = some (.update table sets key val) := by
  have hread := parseSets_listed hs [.word (lit "where"), .word key, .symbol 61, .value val,
      .symbol 59] (by
    intro us h
    cases h)
  rw [tokens_updateCut hsep.closed ht hs hsets hk, hsep.scan_self]
  obtain ⟨s, sets', rfl⟩ := List.exists_cons_of_ne_nil hs
  rw [List.map_cons, List.intercalate_cons_cons_left, List.cons_append] at hread ⊢
  rw [parse, if_pos ⟨rfl, rfl⟩, parseUpdate, hread]
  · simp only
    rw [if_pos ⟨rfl, ht, hk, hsets⟩]
  · intro ts h
    cases h

/-- The tokens of an assignment behind another with nothing between them. -/
theorem tokens_blankCut {sep : Str} (hsep : SqlWhere.Closed sep) (hblank : scan [] sep = [])
    (ht : IsName reserved table) {x y : Str × Str} {sets : List (Str × Str)}
    (hsets : ∀ s ∈ x :: y :: sets, IsName reserved s.1) {key : Str} (hk : IsName reserved key)
    (val : Str) :
    ∃ ts, tokens (updateCut sep table (x :: y :: sets) key val) =
      .word (lit "update") :: .word table :: .word (lit "set") :: .word x.1 :: .symbol 61 ::
        .value x.2 ::
        .word y.1 :: .symbol 61 :: ts := by
  rw [tokens_updateCut hsep ht (List.cons_ne_nil _ _) hsets hk, hblank, List.map_cons, List.map_cons,
    List.intercalate_cons_cons, List.intercalate_cons_cons_left, List.intercalate_cons_cons_left]
  exact ⟨_, rfl⟩

/-- Where blanks stand between assignments there is no update. -/
theorem parse_blanks (reserved : List Str) (u table w c v c' : Str) (ts : List Token) :
    parse reserved (.word u :: .word table :: .word w :: .word c :: .symbol 61 :: .value v :: .word c' ::
      .symbol 61 :: ts) = none := by
  have hsets : parseSets (.word c :: .symbol 61 :: .value v :: .word c' :: .symbol 61 :: ts) =
      some ([(c, v)], .word c' :: .symbol 61 :: ts) := by
    rw [parseSets]
    intro us h
    cases h
  rw [parse]
  · split
    · rw [parseUpdate, hsets]
    · rfl
  · intro us h
    cases h

/-- An update is read back. -/
theorem read_update (ht : IsName reserved table) {sets : List (Str × Str)} (hs : sets ≠ [])
    (hsets : ∀ s ∈ sets, IsName reserved s.1) (hplain : ∀ s ∈ sets, 39 ∉ s.2) {key val : Str}
    (hk : IsName reserved key) (hval : 39 ∉ val) :
    read reserved (Stmt.update table sets key val).text = some (.update table sets key val) := by
  rw [text_update_eq, ← render_updateCut _ table hs key val, read_render,
    parse_updateCut comma_blank ht hs hsets hk]
  · exact spaced_updateCut comma_blank.ne_nil comma_blank.endsQuote table sets key val
  · exact codeText_updateCut comma_blank.plain ht hs hsets hk val
  · rw [values_updateCut]
    intro v hvm
    rcases List.mem_append.mp hvm with hvm | hvm
    · obtain ⟨s, hm, rfl⟩ := List.mem_map.mp hvm
      exact hplain s hm
    · rw [List.mem_singleton.mp hvm]
      exact hval

end Read

/-! ## Running -/

/-- A table: its columns, its primary key, and under each key the other columns of its row. -/
structure Table where
  columns : List Str
  key : Str
  rows : UMap Str NullRow

/-- What a select brings: columns, and rows in their order. -/
structure Result where
  columns : List Str
  rows : List (List (Option Str))

namespace Table

/-- What a row has in a column. -/
def cell (T : Table) (k : Str) (row : NullRow) (c : Str) : Option Str :=
  if c = T.key then some k else row c

/-- A row goes in under a key that is not there. -/
def insert (T : Table) (cols vals : List Str) : Option Table :=
  match (cols.zip vals).lookup T.key with
  | some k =>
    if vals.length = cols.length ∧ cols.Nodup ∧ (∀ c ∈ cols, c ∈ T.columns) ∧ k ∉ T.rows then
      some { T with rows := UMap.insertNew k (fun c => (cols.zip vals).lookup c) T.rows }
    else none
  | none => none

/-- The row under a key is changed; the key is not. -/
def update (T : Table) (sets : List (Str × Str)) (key val : Str) : Option Table :=
  if key = T.key ∧ (sets.map (·.1)).Nodup ∧ ∀ s ∈ sets, s.1 ∈ T.columns ∧ s.1 ≠ T.key then
    some { T with rows := UMap.adjust val (fun row c => (sets.lookup c).or (row c)) T.rows }
  else none

/-- A row in the order of the columns. -/
def line (T : Table) (k : Str) (row : NullRow) : List (Option Str) := T.columns.map (T.cell k row)

/-- The rows of the table. -/
def listing (T : Table) : List (List (Option Str)) := T.rows.entries.map fun e => T.line e.1 e.2

/-- The rows with a value in a column. -/
def select (T : Table) (c v : Str) : List (List (Option Str)) :=
  (T.rows.entries.filter fun e => T.cell e.1 e.2 c = some v).map fun e => T.line e.1 e.2

/-- There is one row under a key, or none. -/
theorem select_key (T : Table) (k : Str) :
    T.select T.key k = ((T.rows.lookup k).map (T.line k)).toList := by
  have hcell : ∀ e : Σ _ : Str, NullRow, T.cell e.1 e.2 T.key = some k ↔ e.1 = k := by
    intro e
    rw [cell, if_pos rfl]
    exact ⟨Option.some.inj, congrArg some⟩
  have hfilter : (T.rows.entries.filter fun e => T.cell e.1 e.2 T.key = some k) =
      T.rows.entries.filter fun e => e.1 = k := by
    apply List.filter_congr
    intro e _
    simp only [hcell e]
  unfold select
  rw [hfilter, UMap.filter_key T.rows.nodupKeys]
  unfold AList.lookup
  cases hrow : List.dlookup k T.rows.entries with
  | none => rfl
  | some row => rfl

end Table

/-- The tables of the databases of a server, by name. -/
abbrev Database := Str → Str → Option Table

namespace Database

/-- One table is another. -/
def put (D : Database) (db table : Str) (T : Table) : Database :=
  Function.update D db (Function.update (D db) table (some T))

/-- The table after a statement. -/
def after (D : Database) (db : Str) : Stmt → Option (Str × Table)
  | .insert table cols vals => ((D db table).bind fun T => T.insert cols vals).map fun T => (table, T)
  | .update table sets key val => ((D db table).bind fun T => T.update sets key val).map fun T =>
    (table, T)

/-- Run a text on the selected database. -/
def exec (reserved : List Str) (D : Database) (db text : Str) : Database × Bool :=
  match (read reserved text).bind (D.after db) with
  | some (table, T) => (D.put db table T, true)
  | none => (D, false)

/-- What a text asks for. -/
def select (reserved : List Str) (D : Database) (db text : Str) : Option Result :=
  (readSelect reserved text).bind fun q =>
    (D db q.1).bind fun T => if q.2.1 ∈ T.columns then some ⟨T.columns, T.select q.2.1 q.2.2⟩ else none

theorem put_self (D : Database) (db table : Str) (T : Table) : D.put db table T db table = some T := by
  unfold put
  rw [Function.update_self, Function.update_self]

theorem put_eq_self {D : Database} {db table : Str} {T : Table} (h : D db table = some T) :
    D.put db table T = D := by
  unfold put
  rw [← h, Function.update_eq_self, Function.update_eq_self]

theorem put_put (D : Database) (db table : Str) (T T' : Table) :
    (D.put db table T).put db table T' = D.put db table T' := by
  unfold put
  rw [Function.update_self, Function.update_idem, Function.update_idem]

theorem put_other (D : Database) {db table db' table' : Str} (T : Table) (h : table' ≠ table) :
    D.put db table T db' table' = D db' table' := by
  unfold put
  by_cases hdb : db' = db
  · subst hdb
    rw [Function.update_self, Function.update_of_ne h]
  · rw [Function.update_of_ne hdb]

/-- The row under a key. -/
def rowAt (D : Database) (db table k : Str) : Option NullRow :=
  (D db table).bind fun T => T.rows.lookup k

/-- Only the table that is put may have other rows. -/
theorem rowAt_put (D : Database) {db table db' table' k : Str} {T T0 : Table}
    (hT0 : D db table = some T0)
    (h : db' = db → table' = table → T.rows.lookup k = T0.rows.lookup k) :
    (D.put db table T).rowAt db' table' k = D.rowAt db' table' k := by
  unfold rowAt
  by_cases htable : table' = table
  · subst htable
    by_cases hdb : db' = db
    · rw [hdb, put_self, hT0, Option.bind_some, Option.bind_some, h hdb rfl]
    · unfold put
      rw [Function.update_of_ne hdb]
  · rw [put_other _ _ htable]

end Database

end SqlTables
