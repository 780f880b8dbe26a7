import FuServer.Lib.Decimal
import FuServer.Lib.SqlToken

/-!
# Conditions of a select

A select of the rows of one table: its tokens, the search conditions the
language has over texts, and the rows each of them holds for.  The words of
conditions are reserved; `reserved` are the further ones of a server.
-/

namespace SqlWhere

open Bytes SqlToken

inductive Token
  | word (w : Str)
  | value (v : Str)
  | symbol (c : UInt8)
deriving DecidableEq

/-! ## Tokens -/

/-- A letter, digit, `_`, `#`, `$` or `@`, or beyond ASCII. -/
def isWordByte (c : UInt8) : Bool :=
  Decimal.isDigit c || (65 ≤ c && c ≤ 90) || (97 ≤ c && c ≤ 122) ||
    c == 95 || c == 35 || c == 36 || c == 64 || 128 ≤ c

def isBlank (c : UInt8) : Bool := c == 32 || c == 9 || c == 10 || c == 13

/-- The word read so far. -/
def flush (w : Str) : List Token := if w = [] then [] else [.word w]

/-- What a byte outside words stands for. -/
def mark (c : UInt8) : List Token := if isBlank c then [] else [.symbol c]

/-- The tokens of a text without literals, behind the bytes `w` of a word. -/
def scan (w : Str) : Str → List Token
  | [] => flush w
  | c :: t => if isWordByte c then scan (w ++ [c]) t else flush w ++ mark c ++ scan [] t

/-- The tokens of a statement cut at its literals. -/
def tokens (e : Cut) : List Token := scan [] e.1 ++ e.2.flatMap fun p => .value p.1 :: scan [] p.2

theorem tokens_cons (c v c' : Str) (l : List (Str × Str)) :
    tokens (c, (v, c') :: l) = scan [] c ++ .value v :: tokens (c', l) := by
  simp [tokens]

theorem scan_word {u : Str} (h : ∀ c ∈ u, isWordByte c = true) (w t : Str) :
    scan w (u ++ t) = scan (w ++ u) t := by
  induction u generalizing w with
  | nil => simp
  | cons c u ih =>
    have hc : isWordByte c = true := h c List.mem_cons_self
    rw [List.cons_append, scan, if_pos hc, ih (fun d hd => h d (List.mem_cons_of_mem c hd)),
      List.append_assoc]
    rfl

theorem scan_cons {c : UInt8} (h : isWordByte c = false) (w t : Str) :
    scan w (c :: t) = flush w ++ mark c ++ scan [] t := by
  rw [scan, if_neg (by simp [h])]

/-- No word goes on behind a byte that is not of words. -/
theorem scan_concat {c : UInt8} (h : isWordByte c = false) (w u t : Str) :
    scan w (u ++ [c] ++ t) = scan w (u ++ [c]) ++ scan [] t := by
  induction u generalizing w with
  | nil =>
    show scan w (c :: t) = scan w [c] ++ scan [] t
    rw [scan_cons h, scan_cons h]
    simp [scan, flush]
  | cons d u ih =>
    simp only [List.cons_append]
    by_cases hd : isWordByte d = true
    · rw [scan, if_pos hd, scan, if_pos hd]
      exact ih (w ++ [d])
    · rw [scan, if_neg hd, scan, if_neg hd, ih []]
      simp only [List.append_assoc]

/-- The text in front of others is cut off from them. -/
def Closed (u : Str) : Prop := ∀ t, scan [] (u ++ t) = scan [] u ++ scan [] t

theorem closed_concat {c : UInt8} (h : isWordByte c = false) (u : Str) : Closed (u ++ [c]) :=
  fun t => scan_concat h [] u t

/-- Values listed: the tokens of the separator stand between them. -/
theorem tokens_listed {sep head : Str} (hsep : Closed sep) (hhead : Closed head)
    {items : List (Str × Str)} (h : items ≠ []) (tail : Cut) :
    tokens (listed sep head items tail) =
      scan [] head ++ (scan [] sep).intercalate (items.map fun x => scan [] x.1 ++ [.value x.2]) ++
        tokens tail := by
  induction items generalizing head with
  | nil => exact absurd rfl h
  | cons x items ih =>
    cases items with
    | nil =>
      rw [listed, tokens_cons, hhead x.1]
      simp [List.intercalate]
    | cons y items =>
      have hrest := ih hsep (List.cons_ne_nil y items)
      rw [listed, tokens_cons, hhead x.1, hrest]
      simp [List.intercalate]

/-! ## Names -/

def lower (w : Str) : Str := w.map fun c => if 65 ≤ c && c ≤ 90 then c + 32 else c

/-- The words of the selects below. -/
def keywords : List Str :=
  [lit "select", lit "from", lit "where", lit "and", lit "or", lit "not", lit "in"]

/-- A name that needs no delimiters. -/
def IsName (reserved : List Str) (w : Str) : Prop :=
  w ≠ [] ∧ w.all isWordByte = true ∧ w.head?.any Decimal.isDigit = false ∧ lower w ∉ keywords ++ reserved

instance (reserved : List Str) (w : Str) : Decidable (IsName reserved w) :=
  inferInstanceAs (Decidable (_ ∧ _ ∧ _ ∧ _))

theorem IsName.wordBytes {reserved : List Str} {w : Str} (h : IsName reserved w) :
    ∀ c ∈ w, isWordByte c = true := List.all_eq_true.mp h.2.1

theorem IsName.notMem {reserved : List Str} {w : Str} (h : IsName reserved w) {c : UInt8}
    (hc : isWordByte c = false) : c ∉ w := by
  intro hm
  have hw := h.wordBytes c hm
  rw [hc] at hw
  cases hw

/-- A name and the byte behind it. -/
theorem IsName.scan {reserved : List Str} {w : Str} (h : IsName reserved w) {c : UInt8}
    (hc : isWordByte c = false) : scan [] (w ++ [c]) = .word w :: mark c := by
  rw [scan_word h.wordBytes, List.nil_append, scan_cons hc, flush, if_neg h.1]
  show [Token.word w] ++ mark c ++ [] = _
  rw [List.append_nil]
  rfl

/-! ## Conditions -/

/-- Search conditions on columns of text. -/
inductive Cond
  | eq (column value : Str)
  | ne (column value : Str)
  | among (column : Str) (values : List Str)
  | and (left right : Cond)
  | or (left right : Cond)
  | not (arg : Cond)

/-- The condition holds for a row, its text by column. -/
def Cond.Holds (row : Str → Str) : Cond → Prop
  | eq column value => row column = value
  | ne column value => row column ≠ value
  | among column values => row column ∈ values
  | and left right => left.Holds row ∧ right.Holds row
  | or left right => left.Holds row ∨ right.Holds row
  | not arg => ¬ arg.Holds row

/-- How tight a condition binds: `or` the least, then `and`, then `not`. -/
inductive Level
  | search
  | conjunct
  | test

/-- The grammar of conditions. -/
inductive Derives (reserved : List Str) : Level → List Token → Cond → Prop
  | ofConjunct {ts cond} (h : Derives reserved .conjunct ts cond) : Derives reserved .search ts cond
  | or {ts us left right w} (h : Derives reserved .conjunct ts left) (hw : lower w = lit "or")
      (h' : Derives reserved .search us right) :
      Derives reserved .search (ts ++ .word w :: us) (.or left right)
  | ofTest {ts cond} (h : Derives reserved .test ts cond) : Derives reserved .conjunct ts cond
  | and {ts us left right w} (h : Derives reserved .test ts left) (hw : lower w = lit "and")
      (h' : Derives reserved .conjunct us right) :
      Derives reserved .conjunct (ts ++ .word w :: us) (.and left right)
  | not {ts arg w} (hw : lower w = lit "not") (h : Derives reserved .test ts arg) :
      Derives reserved .test (.word w :: ts) (.not arg)
  | paren {ts cond} (h : Derives reserved .search ts cond) :
      Derives reserved .test (.symbol 40 :: ts ++ [.symbol 41]) cond
  | eq {column value} (hc : IsName reserved column) :
      Derives reserved .test [.word column, .symbol 61, .value value] (.eq column value)
  | ne {column value} (hc : IsName reserved column) :
      Derives reserved .test [.word column, .symbol 60, .symbol 62, .value value] (.ne column value)
  | among {column values w} (hc : IsName reserved column) (hw : lower w = lit "in") (hv : values ≠ []) :
      Derives reserved .test
        (.word column :: .word w :: .symbol 40 ::
          [Token.symbol 44].intercalate (values.map fun v => [.value v]) ++ [.symbol 41])
        (.among column values)

example : Derives [] .search
    [.word (lit "a"), .symbol 61, .value (lit "1"), .word (lit "and"), .word (lit "b"), .symbol 61,
      .value (lit "2")]
    (.and (.eq (lit "a") (lit "1")) (.eq (lit "b") (lit "2"))) :=
  .ofConjunct (.and (.eq (by decide +kernel)) rfl (.ofTest (.eq (by decide +kernel))))

/-- A select of the rows of a table that a condition holds for. -/
def Selects (reserved : List Str) (table : Str) (ts : List Token) (cond : Cond) : Prop :=
  ∃ (s f w : Str) (search tail : List Token),
    lower s = lit "select" ∧ lower f = lit "from" ∧ lower w = lit "where" ∧
    IsName reserved table ∧ Derives reserved .search search cond ∧ (tail = [] ∨ tail = [.symbol 59]) ∧
    ts = .word s :: .symbol 42 :: .word f :: .word table :: .word w :: (search ++ tail)

/-! ## One comparison -/

/-- Without reserved words and parentheses there is one comparison. -/
theorem Derives.comparison {reserved : List Str} {level : Level} {ts : List Token} {cond : Cond}
    (h : Derives reserved level ts cond) (hword : ∀ w, .word w ∈ ts → lower w ∉ keywords)
    (hparen : Token.symbol 40 ∉ ts) :
    ∃ column value, (ts = [.word column, .symbol 61, .value value] ∧ cond = .eq column value) ∨
      ts = [.word column, .symbol 60, .symbol 62, .value value] := by
  induction h with
  | ofConjunct h ih => exact ih hword hparen
  | ofTest h ih => exact ih hword hparen
  | @or ts us left right w h hw h' ih ih' =>
    apply absurd _ (hword w (by simp))
    rw [hw]
    decide
  | @and ts us left right w h hw h' ih ih' =>
    apply absurd _ (hword w (by simp))
    rw [hw]
    decide
  | @not ts arg w hw h ih =>
    apply absurd _ (hword w (by simp))
    rw [hw]
    decide
  | paren h ih =>
    apply absurd _ hparen
    simp
  | @eq column value hc => exact ⟨column, value, Or.inl ⟨rfl, rfl⟩⟩
  | @ne column value hc => exact ⟨column, value, Or.inr rfl⟩
  | among hc hw hv =>
    apply absurd _ hparen
    simp

end SqlWhere
