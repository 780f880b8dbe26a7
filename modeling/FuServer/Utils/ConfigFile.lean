import FuServer.Lib.Bracketed
import FuServer.Model.Config

/-!
# The configuration file

The loop of `openFile` goes through the texts in brackets: the first must begin with
the path, and behind it keys and values take turns.  `flush` writes such a file.

    flush writes c's settings under its path → a new UtilsConfig with that path opens it →
      it finds under every key what c had                                  (openFile_flush)
-/

namespace FuServer

open Bytes Bracketed

/-! ## The loop -/

/-- The texts between brackets. -/
def texts (s : Str) : List Str := items 91 93 s

/-- What the loop makes of the texts: `key` is one without its value so far. -/
def readTexts (filePath : Str) : Bool → Option Str → UMap Str Str → List Str → Bool × UMap Str Str
  | isCheckFile, _, list, [] => (isCheckFile, list)
  | false, key, list, w :: ws =>
    if strncmpEq filePath.length (cstr w) (cstr filePath) then readTexts filePath true key list ws
    else (false, list)
  | true, none, list, w :: ws => readTexts filePath true (some (cstr w)) list ws
  | true, some key, list, w :: ws => readTexts filePath true none (list.insert key (cstr w)) ws

namespace ParseState

/-- A key that waits for its value. -/
def key (s : ParseState) : Option Str := if s.tempKey then some s.keyName else none

/-- The state at index `i`, between two rounds: `inside` is the text begun and `rest` what is to come. -/
structure At (s : ParseState) (i : Nat) (inside : Option Str) (rest : Str) : Prop where
  drop : s.fileData.drop i = rest
  left : s.tempLeft = inside.isSome
  right : s.tempRight = false
  value : s.tempValue = false
  text : ∀ item ∈ inside, s.ptr + item.length = i ∧ s.fileData.drop s.ptr = item ++ rest

variable {s : ParseState} {i : Nat} {inside : Option Str} {c : UInt8} {rest : Str}

theorem At.get (h : s.At i inside (c :: rest)) : s.fileData[i]?.getD 0 = c := by
  have hget : (s.fileData.drop i)[0]? = some c := by
    rw [h.drop]
    rfl
  rw [List.getElem?_drop, Nat.add_zero] at hget
  rw [hget]
  rfl

theorem At.drop_succ (h : s.At i inside (c :: rest)) : s.fileData.drop (i + 1) = rest := by
  rw [← List.drop_drop, h.drop]
  rfl

/-- Outside, a character is passed over. -/
theorem At.step_outside (h : s.At i none (c :: rest)) (hc : c ≠ 91) (filePath : Str) :
    s.step filePath i c = some s ∧ s.At (i + 1) none rest := by
  constructor
  · unfold step
    rw [if_pos ⟨hc, h.left⟩]
  · exact ⟨h.drop_succ, h.left, h.right, h.value, by rintro item ⟨⟩⟩

/-- A left bracket begins a text, also inside another. -/
theorem At.step_left (h : s.At i inside (91 :: rest)) (filePath : Str) :
    s.step filePath i 91 = some { s with ptr := i + 1, tempLeft := true } ∧
      At { s with ptr := i + 1, tempLeft := true } (i + 1) (some []) rest := by
  constructor
  · unfold step
    rw [if_neg fun hno => hno.1 rfl, if_pos rfl]
    dsimp only
    rw [if_neg (by decide), if_pos h.right]
  · refine ⟨h.drop_succ, rfl, h.right, h.value, ?_⟩
    rintro item ⟨⟩
    exact ⟨rfl, h.drop_succ⟩

/-- Inside, any other character belongs to the text. -/
theorem At.step_inside {item : Str} (h : s.At i (some item) (c :: rest)) (hleft : c ≠ 91)
    (hright : c ≠ 93)
    (filePath : Str) : s.step filePath i c = some s ∧ s.At (i + 1) (some (item ++ [c])) rest := by
  have hin : s.tempLeft = true := h.left
  constructor
  · unfold step
    rw [if_neg (by rw [hin]; simp), if_neg hleft]
    dsimp only
    rw [if_neg hright, if_pos h.right]
  · refine ⟨h.drop_succ, h.left, h.right, h.value, ?_⟩
    rintro longer ⟨⟩
    obtain ⟨hplace, hdrop⟩ := h.text item rfl
    constructor
    · rw [List.length_append, List.length_singleton]
      omega
    · rw [hdrop, List.append_assoc]
      rfl

/-- The text that a right bracket ends. -/
theorem At.text_set {item : Str} (h : s.At i (some item) (c :: rest)) :
    cstr ((s.fileData.set i 0).drop s.ptr) = cstr item := by
  obtain ⟨hplace, hdrop⟩ := h.text item rfl
  have hset : (s.fileData.set i 0).drop s.ptr = item ++ 0 :: rest := by
    rw [List.drop_set, if_neg (by omega), hdrop, show i - s.ptr = item.length by omega]
    simp
  rw [hset, cstr_append_zero]

theorem At.drop_set (h : s.At i inside (c :: rest)) : (s.fileData.set i 0).drop (i + 1) = rest := by
  rw [List.drop_set, if_pos (Nat.lt_succ_self i)]
  exact h.drop_succ

/-- After a text the loop is outside. -/
theorem At.taken (h : s.At i inside (c :: rest)) {s' : ParseState}
    (hdata : s'.fileData = s.fileData.set i 0) (hleft : s'.tempLeft = false)
    (hright : s'.tempRight = false) (hvalue : s'.tempValue = false) :
    s'.At (i + 1) none rest := by
  refine ⟨?_, hleft, hright, hvalue, by rintro item ⟨⟩⟩
  rw [hdata]
  exact h.drop_set

/-- At a right bracket the text is taken. -/
theorem At.step_right {item : Str} (h : s.At i (some item) (93 :: rest)) (filePath : Str) :
    s.step filePath i 93 = takeText filePath i { s with tempRight := true } := by
  have hin : s.tempLeft = true := h.left
  simp [step, hin]

/-- The first text is compared with the path. -/
theorem At.step_header {item : Str} (h : s.At i (some item) (93 :: rest))
    (hcheck : s.isCheckFile = false) (filePath : Str) :
    if strncmpEq filePath.length (cstr item) (cstr filePath) then
      ∃ s', s.step filePath i 93 = some s' ∧ s'.At (i + 1) none rest ∧
        s'.isCheckFile = true ∧ s'.key = s.key ∧ s'.fileDataList = s.fileDataList
    else s.step filePath i 93 = none := by
  have hin : s.tempLeft = true := h.left
  have htext := h.text_set
  rw [h.step_right]
  unfold takeText ParseState.text
  dsimp only
  rw [htext, hcheck, hin]
  split
  · next hmatch =>
    rw [if_pos (by simpa using hmatch)]
    exact ⟨_, rfl, h.taken rfl rfl rfl h.value, rfl, rfl, rfl⟩
  · next hmatch =>
    rw [if_neg (by simpa using hmatch)]
    rfl

/-- Behind the header the texts are keys and values in turn. -/
theorem At.step_text {item : Str} (h : s.At i (some item) (93 :: rest)) (hcheck : s.isCheckFile = true)
    (filePath : Str) :
    ∃ s', s.step filePath i 93 = some s' ∧ s'.At (i + 1) none rest ∧ s'.isCheckFile = true ∧
      match s.key with
      | none => s'.key = some (cstr item) ∧ s'.fileDataList = s.fileDataList
      | some key => s'.key = none ∧ s'.fileDataList = s.fileDataList.insert key (cstr item) := by
  have hin : s.tempLeft = true := h.left
  have htext := h.text_set
  have hvalue := h.value
  rw [h.step_right]
  unfold takeText ParseState.text key
  dsimp only
  rw [htext, hcheck, hin, hvalue]
  cases hkey : s.tempKey with
  | false => exact ⟨_, rfl, h.taken rfl rfl rfl rfl, rfl, rfl, rfl⟩
  | true => exact ⟨_, rfl, h.taken rfl rfl rfl rfl, rfl, rfl, rfl⟩

/-- What a right bracket makes of the text in front of it: the loop stops, or goes on as
`readTexts` does. -/
theorem At.step_readTexts {item : Str} (h : s.At i (some item) (93 :: rest)) (filePath : Str)
    (ws : List Str) :
    (s.step filePath i 93 = none ∧
      readTexts filePath s.isCheckFile s.key s.fileDataList (item :: ws) =
        (s.isCheckFile, s.fileDataList)) ∨
    ∃ s', s.step filePath i 93 = some s' ∧ s'.At (i + 1) none rest ∧
      readTexts filePath s.isCheckFile s.key s.fileDataList (item :: ws) =
        readTexts filePath s'.isCheckFile s'.key s'.fileDataList ws := by
  cases hcheck : s.isCheckFile with
  | false =>
    have hheader := h.step_header hcheck filePath
    rw [readTexts]
    split at hheader
    · next hmatch =>
      right
      obtain ⟨s', hstep, hat, hcheck', hkey, hlist⟩ := hheader
      refine ⟨s', hstep, hat, ?_⟩
      rw [if_pos hmatch, hcheck', hkey, hlist]
    · next hmatch =>
      left
      exact ⟨hheader, if_neg hmatch⟩
  | true =>
    right
    obtain ⟨s', hstep, hat, hcheck', htext⟩ := h.step_text hcheck filePath
    refine ⟨s', hstep, hat, ?_⟩
    cases hkey : s.key with
    | none =>
      rw [hkey] at htext
      rw [readTexts, hcheck', htext.1, htext.2]
    | some key =>
      rw [hkey] at htext
      rw [readTexts, hcheck', htext.1, htext.2]

/-- **The loop** reads the texts between brackets. -/
theorem At.loop_eq (h : s.At i inside rest) (filePath : Str) :
    ((loop filePath rest.length i s).isCheckFile, (loop filePath rest.length i s).fileDataList) =
      readTexts filePath s.isCheckFile s.key s.fileDataList (scan 91 93 inside rest) := by
  induction rest generalizing i s inside with
  | nil =>
    have hnone : scan 91 93 inside ([] : Str) = [] := by
      cases inside <;> rfl
    rw [hnone, readTexts]
    rfl
  | cons c rest ih =>
    rw [List.length_cons, loop, h.get]
    by_cases hleft : c = 91
    · subst hleft
      obtain ⟨hstep, hat⟩ := h.step_left filePath
      have hscan : scan 91 93 inside (91 :: rest) = scan 91 93 (some []) rest := by
        cases inside <;> rw [scan, if_pos rfl]
      rw [hstep, hscan]
      exact ih hat
    · cases inside with
      | none =>
        obtain ⟨hstep, hat⟩ := h.step_outside hleft filePath
        rw [hstep, scan, if_neg hleft]
        exact ih hat
      | some item =>
        rw [scan, if_neg hleft]
        by_cases hright : c = 93
        · subst hright
          rw [if_pos rfl]
          rcases h.step_readTexts filePath (scan 91 93 none rest) with ⟨hstep, hread⟩ | ⟨s', hstep,
            hat, hread⟩
          · rw [hstep, hread]
          · rw [hstep, hread]
            exact ih hat
        · obtain ⟨hstep, hat⟩ := h.step_inside hleft hright filePath
          rw [hstep, if_neg hright]
          exact ih hat

end ParseState

/-! ## Opening a file -/

namespace UtilsConfig

variable {F : Type}

/-- Read from its beginning, a file gives all its texts. -/
theorem openFile_fresh {fs : Files F} {c : UtilsConfig F} {fileName : Str} {f : F}
    (h : c.fileHandler = some (f, 0) ∨ c.fileHandler = none ∧ fs.found (cstr fileName) = some f) :
    c.openFile fs fileName = .ok { c with
      filePath := fileName
      fileHandler := some (f, (fs.contents f).length)
      isCheckFile := (readTexts fileName c.isCheckFile none c.fileDataList (texts (fs.contents f))).1
      fileDataList := (readTexts fileName c.isCheckFile none c.fileDataList
          (texts (fs.contents f))).2 } := by
  have hat : ParseState.At
      { fileData := fs.contents f, isCheckFile := c.isCheckFile, fileDataList := c.fileDataList }
      0 none (fs.contents f) := ⟨rfl, rfl, rfl, rfl, by rintro item ⟨⟩⟩
  have hloop := hat.loop_eq fileName
  have hhandler : c.fileHandler.or (openHandler fs fileName) = some (f, 0) := by
    unfold openHandler
    rcases h with h | ⟨h, hfound⟩
    · rw [h]
      rfl
    · rw [h, hfound]
      rfl
  unfold openFile
  rw [hhandler]
  dsimp only
  rw [List.drop_zero, if_pos rfl, Nat.zero_add]
  have hread : readTexts fileName c.isCheckFile none c.fileDataList (texts (fs.contents f)) = _ :=
    hloop.symm
  rw [hread]

/-- At its end there is nothing more to read. -/
theorem openFile_again {fs : Files F} {c : UtilsConfig F} (fileName : Str) {f : F}
    (h : c.fileHandler = some (f, (fs.contents f).length)) (hne : fs.contents f ≠ []) :
    c.openFile fs fileName = .ok { c with filePath := fileName } := by
  have hpos := List.length_pos_of_ne_nil hne
  unfold openFile
  rw [h, Option.some_or]
  dsimp only
  rw [List.drop_length, List.length_nil, if_neg (by omega), Nat.add_zero]

/-! ## Writing and reading back -/

/-- What a reader finds where `s` has been written between brackets. -/
def readsAs (s : Str) : List Str := texts (bracket 91 93 (cstr s))

/-- `s` is read back as one text. -/
def ReadsOne (s : Str) : Prop := ∃ w, readsAs s = [w]

/-- The text that `s` is read back as. -/
def asRead (s : Str) : Str := cstr ((readsAs s).headD [])

/-- Free of brackets and NUL. -/
def Clean (s : Str) : Prop := ∀ c ∈ s, c ≠ 91 ∧ c ≠ 93 ∧ c ≠ 0

instance (s : Str) : Decidable (Clean s) := List.decidableBAll _ s

theorem Clean.cstr_eq {s : Str} (h : Clean s) : cstr s = s := cstr_eq_self.mpr fun c hc => (h c hc).2.2

theorem Clean.readsAs {s : Str} (h : Clean s) : readsAs s = [s] := by
  unfold UtilsConfig.readsAs texts
  rw [h.cstr_eq]
  exact items_bracket_free (by decide) fun c hc => ⟨(h c hc).1, (h c hc).2.1⟩

theorem Clean.readsOne {s : Str} (h : Clean s) : ReadsOne s := ⟨s, h.readsAs⟩

theorem Clean.asRead {s : Str} (h : Clean s) : asRead s = s := by
  unfold UtilsConfig.asRead
  rw [h.readsAs]
  exact h.cstr_eq

theorem texts_bracket (s : Str) (c : UInt8) (hc : c ≠ 91) (rest : Str) :
    texts (bracket 91 93 (cstr s) ++ c :: rest) = readsAs s ++ texts rest := by
  unfold texts readsAs
  rw [items_bracket_append (by decide), items_cons_of_ne hc]
  rfl

/-- The file begins with the path, and behind it are the keys with their values. -/
theorem texts_flushText (ord : HashOrder) (c : UtilsConfig F) :
    texts (c.flushText ord) = readsAs c.filePath ++
      (ord.order c.fileDataList.entries).flatMap fun iter => readsAs iter.1 ++ readsAs iter.2 := by
  have hpath : fuStringFormat (lit "[%s]\n") [c.filePath] = bracket 91 93 (cstr c.filePath) ++ [10] := by
    have hformat : fuStringFormat (lit "[%s]\n") [c.filePath] =
        91 :: (cstr c.filePath ++ [93, 10]) := rfl
    rw [hformat]
    simp [bracket]
  have hpair : ∀ iter : Σ _ : Str, Str, fuStringFormat (lit "[%s]=[%s]\n") [iter.1, iter.2] =
      bracket 91 93 (cstr iter.1) ++ 61 :: (bracket 91 93 (cstr iter.2) ++ [10]) := by
    intro iter
    have hformat : fuStringFormat (lit "[%s]=[%s]\n") [iter.1, iter.2] =
        91 :: (cstr iter.1 ++ 93 :: 61 :: 91 :: (cstr iter.2 ++ [93, 10])) := rfl
    rw [hformat]
    simp [bracket]
  unfold flushText
  rw [hpath, List.append_assoc, List.singleton_append, texts_bracket _ _ (by decide)]
  congr 1
  generalize ord.order c.fileDataList.entries = entries
  induction entries with
  | nil => rfl
  | cons iter entries ih =>
    rw [List.flatMap_cons, List.flatMap_cons, hpair, List.append_assoc, List.cons_append,
      texts_bracket _ _ (by decide), List.append_assoc, List.singleton_append,
        texts_bracket _ _ (by decide), ih,
      List.append_assoc]

/-- Texts in turn as keys and values. -/
def pairsOf : List Str → List (Str × Str)
  | k :: v :: ws => (cstr k, cstr v) :: pairsOf ws
  | _ => []

/-- Behind the header the pairs are inserted one by one. -/
theorem readTexts_pairs (filePath : Str) (list : UMap Str Str) (ws : List Str) :
    readTexts filePath true none list ws =
      (true, UMap.insertAll (pairsOf ws) list) := by
  fun_induction pairsOf ws generalizing list with
  | case1 k v ws ih =>
    rw [readTexts, readTexts, ih]
    rfl
  | case2 ws hws =>
    match ws with
    | [] => rfl
    | [w] => rfl
    | k :: v :: ws => exact absurd rfl (hws k v ws)

/-- The settings in a file: the pairs behind its header. -/
def settings (text : Str) : UMap Str Str :=
  UMap.insertAll (pairsOf (texts text).tail) ∅

/-- Texts that are read back as one each are read back as the pairs they were. -/
theorem pairsOf_written {entries : List (Σ _ : Str, Str)}
    (h : ∀ iter ∈ entries, ReadsOne iter.1 ∧ ReadsOne iter.2) :
    pairsOf (entries.flatMap fun iter => readsAs iter.1 ++ readsAs iter.2) =
      entries.map fun iter => (asRead iter.1, asRead iter.2) := by
  induction entries with
  | nil => rfl
  | cons iter entries ih =>
    obtain ⟨⟨k, hk⟩, ⟨v, hv⟩⟩ := h iter List.mem_cons_self
    have hrest := ih fun iter' h' => h iter' (List.mem_cons_of_mem iter h')
    have hpair : (asRead iter.1, asRead iter.2) = (cstr k, cstr v) := by
      unfold asRead
      rw [hk, hv]
      rfl
    rw [List.flatMap_cons, hk, hv, List.map_cons, ← hrest, hpair]
    rfl

/-- What is read back of a file that `flush` has written under a path that is read back as one text. -/
theorem settings_flushText (ord : HashOrder) (c : UtilsConfig F) (hpath : ReadsOne c.filePath)
    (h : ∀ k v, c.fileDataList.lookup k = some v → ReadsOne k ∧ ReadsOne v) :
    settings (c.flushText ord) = UMap.insertAll ((ord.order c.fileDataList.entries).map fun iter =>
      (asRead iter.1, asRead iter.2)) ∅ := by
  obtain ⟨w, hw⟩ := hpath
  have hentries : ∀ iter ∈ ord.order c.fileDataList.entries, ReadsOne iter.1 ∧ ReadsOne iter.2 := by
    intro iter hiter
    exact h iter.1 iter.2 (UMap.mem_entries.mp (ord.mem_order.mp hiter))
  unfold settings
  rw [texts_flushText, hw, List.singleton_append, List.tail_cons, pairsOf_written hentries]

theorem strncmpEq_self (n : Nat) (s : Str) : strncmpEq n s s = true := by
  induction n generalizing s with
  | zero => rfl
  | succ n ih =>
    rw [strncmpEq, if_neg (fun h => h rfl)]
    split
    · rfl
    · exact ih s.tail

/-- A file whose header begins with the path gives its settings, before what there was. -/
theorem readTexts_header {filePath text header : Str} {ws : List Str}
    (htexts : texts text = header :: ws)
    (hmatch : strncmpEq filePath.length (cstr header) (cstr filePath) = true) (list : UMap Str Str)
    (k : Str) :
    (readTexts filePath false none list (texts text)).1 = true ∧
      (readTexts filePath false none list (texts text)).2.lookup k =
        ((settings text).lookup k).or (list.lookup k) := by
  unfold settings
  rw [htexts, readTexts, if_pos hmatch, readTexts_pairs, List.tail_cons]
  exact ⟨rfl, UMap.lookup_insertAll_or _ list k⟩

/-- Settings that are written and read back as they are. -/
theorem lookup_settings_flushText (ord : HashOrder) (c : UtilsConfig F) (hpath : ReadsOne c.filePath)
    (hclean : ∀ k v, c.fileDataList.lookup k = some v → Clean k ∧ Clean v) (k : Str) :
    (settings (c.flushText ord)).lookup k = c.fileDataList.lookup k := by
  have hone : ∀ k v, c.fileDataList.lookup k = some v → ReadsOne k ∧ ReadsOne v := fun k v hkv =>
    ⟨(hclean k v hkv).1.readsOne, (hclean k v hkv).2.readsOne⟩
  -- a pair read back is an entry
  have hentry : ∀ e ∈ (ord.order c.fileDataList.entries).map
      (fun iter => (asRead iter.1, asRead iter.2)),
      c.fileDataList.lookup e.1 = some e.2 := by
    intro e he
    obtain ⟨iter, hiter, rfl⟩ := List.mem_map.mp he
    have hlookup := UMap.mem_entries.mp (ord.mem_order.mp hiter)
    obtain ⟨hk, hv⟩ := hclean iter.1 iter.2 hlookup
    dsimp only
    rw [hk.asRead, hv.asRead]
    exact hlookup
  rw [settings_flushText ord c hpath hone]
  rcases UMap.lookup_insertAll _ (∅ : UMap Str Str) k with ⟨e, he, rfl, hlookup⟩ | ⟨hnone, hlookup⟩
  · rw [hlookup, hentry e he]
  · rw [hlookup]
    cases hk : c.fileDataList.lookup k with
    | none => rfl
    | some v =>
      -- an entry is read back
      exfalso
      have hmem := ord.mem_order.mpr (UMap.mem_entries.mpr hk)
      apply hnone _ (List.mem_map_of_mem hmem)
      exact (hclean k v hk).1.asRead

/-- **The round trip.**  What `flush` has written under a path, a new object with this path finds in it:
under every key the value that was there. -/
theorem openFile_flush {F : Type} [DecidableEq F] (ord : HashOrder) (fs : Files F)
    (c : UtilsConfig F) {f : F} (hmade : fs.made (cstr c.filePath) = some f)
    (hfound : fs.found (cstr c.filePath) = some f) (hpath : Clean c.filePath)
    (hclean : ∀ k v, c.fileDataList.lookup k = some v → Clean k ∧ Clean v) :
    ∃ fs', c.flush ord fs = .ok fs' ∧
      ∃ c', (new fs' c.filePath).openFile fs' c.filePath = .ok c' ∧
        ∀ k, c'.fileDataList.lookup k = c.fileDataList.lookup k := by
  generalize hfs :
    ({ fs with contents := Function.update fs.contents f (c.flushText ord) } : Files F) = fs'
  have hcontents : fs'.contents f = c.flushText ord := by
    rw [← hfs]
    exact Function.update_self f _ _
  have hfound' : fs'.found (cstr c.filePath) = some f := by
    rw [← hfs]
    exact hfound
  have hhandler : (new fs' c.filePath).fileHandler = some (f, 0) ∨
      (new fs' c.filePath).fileHandler = none ∧ fs'.found (cstr c.filePath) = some f := by
    unfold new openHandler
    dsimp only
    rw [hfound']
    split
    · exact Or.inl rfl
    · exact Or.inr ⟨rfl, rfl⟩
  refine ⟨fs', ?_, _, openFile_fresh hhandler, ?_⟩
  · unfold flush
    rw [hmade, ← hfs]
  · intro k
    have hheader : texts (fs'.contents f) = c.filePath :: (texts (c.flushText ord)).tail := by
      rw [hcontents, texts_flushText, hpath.readsAs]
      rfl
    have hself := strncmpEq_self c.filePath.length (cstr c.filePath)
    have hread := (readTexts_header hheader hself ∅ k).2
    rw [hcontents, lookup_settings_flushText ord c hpath.readsOne hclean] at hread
    dsimp only
    rw [hcontents]
    show (readTexts c.filePath false none ∅ (texts (c.flushText ord))).2.lookup k = _
    rw [hread]
    exact Option.or_none

/-- Every name leads to a file of its own. -/
def plainFiles (contents : Str → Str) : Files Str :=
  { found := some, made := some, contents := contents }

/-- Two settings, one of them with an empty value. -/
def twoSettings : UtilsConfig Str :=
  { filePath := lit "net.cfg", fileDataList := UMap.insertAll [(lit "ip", lit "127.0.0.1"),
    (lit "name", [])] ∅ }

theorem openFile_flush_two :
    ∃ fs', twoSettings.flush .plain (plainFiles fun _ => []) = .ok fs' ∧
      ∃ c', (new fs' twoSettings.filePath).openFile fs' twoSettings.filePath = .ok c' ∧
        ∀ k, c'.fileDataList.lookup k = twoSettings.fileDataList.lookup k := by
  refine openFile_flush .plain (plainFiles fun _ => []) twoSettings rfl rfl (by decide) ?_
  intro k v hkv
  rcases UMap.lookup_insertAll [(lit "ip", lit "127.0.0.1"), (lit "name", [])] (∅ : UMap Str Str) k with
    ⟨e, he, rfl, hlookup⟩ | ⟨-, hlookup⟩
  · have hv : some e.2 = some v := hlookup.symm.trans hkv
    cases hv
    revert e
    decide
  · have hnone : none = some v := hlookup.symm.trans hkv
    cases hnone

end UtilsConfig

end FuServer
