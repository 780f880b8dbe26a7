import FuServer.Lib.Outcome
import FuServer.Utils.ConfigFile

/-!
# The life of a configuration object

The destructor writes the file anew with what the object holds by then, and it holds
the old settings only if a call of `openFile` has read them.  The file is read once:
the handler stays open on it, at its end.
-/

namespace FuServer

open Bytes Bracketed Outcome

namespace UtilsConfig

variable {F : Type}

/-! ## Lives -/

inductive ConfigOp
  | openFile (fileName : Str)
  | setStringKey (keyName keyValue : Str)
  | getStringKey (keyName defaultValue : Str)
deriving DecidableEq

def step (fs : Files F) (c : UtilsConfig F) : ConfigOp → Res (UtilsConfig F)
  | .openFile fileName => c.openFile fs fileName
  | .setStringKey keyName keyValue => .ok (c.setStringKey keyName keyValue)
  | .getStringKey keyName defaultValue => .ok (c.getStringKey keyName defaultValue).2

/-- The files after a life from the constructor to the destructor. -/
def life [DecidableEq F] (ord : HashOrder) (fs : Files F) (fileName : Str) (ops : List ConfigOp) :
    Res (Files F) := do
  let c ← ops.foldlM (step fs) (new fs fileName)
  return c.destroy ord fs

/-- The path that the destructor writes to. -/
def lastPath (path : Str) (ops : List ConfigOp) : Str :=
  ops.foldl (fun path op => match op with
    | .openFile fileName => fileName
    | _ => path) path

def opened : ConfigOp → Option Str
  | .openFile fileName => some fileName
  | _ => none

/-- A default for `k`. -/
def defaultOf (k : Str) : ConfigOp → Option Str
  | .getStringKey keyName defaultValue => if keyName = k ∧ k ≠ [] then some defaultValue else none
  | _ => none

/-- `setStringKey` has changed `k`. -/
def Changed (ops : List ConfigOp) (k : Str) : Prop := k ≠ [] ∧ ∃ v, ConfigOp.setStringKey k v ∈ ops

/-! ## The list of settings -/

/-- What a call makes of the list, a call of `openFile` that reads nothing included. -/
def afterOp (list : UMap Str Str) : ConfigOp → UMap Str Str
  | .openFile _ => list
  | .setStringKey k v => if k = [] then list else list.insert k v
  | .getStringKey k d => if k = [] ∨ k ∈ list then list else list.insert k d

def afterOps (list : UMap Str Str) (ops : List ConfigOp) : UMap Str Str := ops.foldl afterOp list

theorem changed_cons {op : ConfigOp} {ops : List ConfigOp} {k : Str} (h : Changed ops k) :
    Changed (op :: ops) k :=
  ⟨h.1, h.2.imp fun _ hv => List.mem_cons_of_mem op hv⟩

theorem lookup_set (list : UMap Str Str) (keyName keyValue k : Str) :
    (afterOp list (.setStringKey keyName keyValue)).lookup k =
      if keyName = k ∧ k ≠ [] then some keyValue else list.lookup k := by
  show (if keyName = [] then list else list.insert keyName keyValue).lookup k = _
  by_cases hkey : keyName = k
  · subst hkey
    by_cases hempty : keyName = []
    · rw [if_pos hempty, if_neg fun h : keyName = keyName ∧ keyName ≠ [] => h.2 hempty]
    · rw [if_neg hempty, if_pos ⟨rfl, hempty⟩, AList.lookup_insert]
  · rw [if_neg fun h : keyName = k ∧ k ≠ [] => hkey h.1]
    split
    · rfl
    · exact AList.lookup_insert_ne (Ne.symm hkey)

theorem lookup_get (list : UMap Str Str) (keyName defaultValue k : Str) :
    (afterOp list (.getStringKey keyName defaultValue)).lookup k =
      (list.lookup k).or (defaultOf k (.getStringKey keyName defaultValue)) := by
  show (if keyName = [] ∨ keyName ∈ list then list else list.insert keyName defaultValue).lookup k =
    (list.lookup k).or (if keyName = k ∧ k ≠ [] then some defaultValue else none)
  by_cases hkey : keyName = k
  · subst hkey
    by_cases hempty : keyName = []
    · rw [if_pos (Or.inl hempty), if_neg fun h : keyName = keyName ∧ keyName ≠ [] => h.2 hempty,
        Option.or_none]
    · rw [if_pos (⟨rfl, hempty⟩ : keyName = keyName ∧ keyName ≠ [])]
      by_cases hmem : keyName ∈ list
      · obtain ⟨v, hv⟩ := UMap.exists_lookup hmem
        rw [if_pos (Or.inr hmem), hv]
        rfl
      · rw [if_neg fun h => h.elim hempty hmem, AList.lookup_insert, AList.lookup_eq_none.mpr hmem]
        rfl
  · rw [if_neg fun h : keyName = k ∧ k ≠ [] => hkey h.1, Option.or_none]
    split
    · rfl
    · exact AList.lookup_insert_ne (Ne.symm hkey)

/-- One call: it sets the key, or it leaves what there is and may give a default otherwise. -/
theorem lookup_afterOp (list : UMap Str Str) (op : ConfigOp) (k : Str) :
    (∃ v, k ≠ [] ∧ op = .setStringKey k v ∧ (afterOp list op).lookup k = some v) ∨
      (¬ Changed [op] k ∧ (afterOp list op).lookup k = (list.lookup k).or (defaultOf k op)) := by
  cases op with
  | openFile fileName =>
    right
    refine ⟨?_, Option.or_none.symm⟩
    rintro ⟨-, v, hv⟩
    cases List.mem_singleton.mp hv
  | setStringKey keyName keyValue =>
    rw [lookup_set]
    by_cases hkey : keyName = k ∧ k ≠ []
    · left
      rw [if_pos hkey]
      exact ⟨keyValue, hkey.2, by rw [hkey.1], rfl⟩
    · right
      rw [if_neg hkey]
      refine ⟨?_, Option.or_none.symm⟩
      rintro ⟨hne, v, hv⟩
      cases List.mem_singleton.mp hv
      exact hkey ⟨rfl, hne⟩
  | getStringKey keyName defaultValue =>
    right
    refine ⟨?_, lookup_get list keyName defaultValue k⟩
    rintro ⟨-, v, hv⟩
    cases List.mem_singleton.mp hv

theorem not_changed_cons {op : ConfigOp} {ops : List ConfigOp} {k : Str} (h : ¬ Changed (op :: ops) k) :
    ¬ Changed [op] k ∧ ¬ Changed ops k := by
  constructor
  · rintro ⟨hne, v, hv⟩
    rw [List.mem_singleton] at hv
    exact h ⟨hne, v, hv ▸ List.mem_cons_self⟩
  · exact fun hops => h (changed_cons hops)

/-- A key that is not set keeps its value, or gets the first default. -/
theorem lookup_afterOps (ops : List ConfigOp) (list : UMap Str Str) {k : Str} (h : ¬ Changed ops k) :
    (afterOps list ops).lookup k = (list.lookup k).or (ops.findSome? (defaultOf k)) := by
  induction ops generalizing list with
  | nil => exact Option.or_none.symm
  | cons op ops ih =>
    obtain ⟨hop, hops⟩ := not_changed_cons h
    have hrest := ih (afterOp list op) hops
    rcases lookup_afterOp list op k with ⟨v, hne, rfl, -⟩ | ⟨-, hstep⟩
    · exact absurd ⟨hne, v, List.mem_cons_self⟩ hop
    · rw [hstep, Option.or_assoc] at hrest
      show (afterOps (afterOp list op) ops).lookup k = _
      rw [hrest, List.findSome?_cons]
      cases defaultOf k op <;> rfl

/-- A key that is set has a value. -/
theorem exists_lookup_afterOps (ops : List ConfigOp) (list : UMap Str Str) {k : Str}
    (h : Changed ops k) :
    ∃ v, (afterOps list ops).lookup k = some v := by
  induction ops generalizing list with
  | nil =>
    obtain ⟨-, v, hv⟩ := h
    cases hv
  | cons op ops ih =>
    by_cases hops : Changed ops k
    · exact ih (afterOp list op) hops
    · rcases lookup_afterOp list op k with ⟨v, -, -, hstep⟩ | ⟨hop, -⟩
      · refine ⟨v, ?_⟩
        show (afterOps (afterOp list op) ops).lookup k = _
        rw [lookup_afterOps ops _ hops, hstep]
        rfl
      · obtain ⟨hne, v, hv⟩ := h
        rcases List.mem_cons.mp hv with hv | hv
        · exact absurd ⟨hne, v, hv ▸ List.mem_cons_self⟩ hop
        · exact absurd ⟨hne, v, hv⟩ hops

/-- A setting once in the list stays, with its value unless it is changed. -/
theorem afterOps_keeps (ops : List ConfigOp) {list : UMap Str Str} {k v : Str}
    (h : list.lookup k = some v) :
    ∃ v', (afterOps list ops).lookup k = some v' ∧ (v' = v ∨ Changed ops k) := by
  by_cases hchanged : Changed ops k
  · obtain ⟨v', hv'⟩ := exists_lookup_afterOps ops list hchanged
    exact ⟨v', hv', Or.inr hchanged⟩
  · refine ⟨v, ?_, Or.inl rfl⟩
    rw [lookup_afterOps ops list hchanged, h]
    rfl

/-- The settings at hand at the end: those of the file come in with the first call of `openFile`, if
that is given the path or a beginning of it. -/
def held (path text : Str) (list : UMap Str Str) : List ConfigOp → UMap Str Str
  | [] => list
  | .openFile fileName :: ops =>
    afterOps
      (if strncmpEq fileName.length path (cstr fileName) = true then
        UMap.insertAll (pairsOf (texts text).tail) list
      else list) ops
  | op :: ops => held path text (afterOp list op) ops

/-! ## Runs -/

variable {fs : Files F} {f : F}

/-- A file of this path: its header is the path. -/
structure WellFormed (path text : Str) : Prop where
  clean : Clean path
  header : ∃ ws, texts text = path :: ws

theorem WellFormed.ne_nil {path text : Str} (h : WellFormed path text) : text ≠ [] := by
  rintro rfl
  obtain ⟨ws, hws⟩ := h.header
  cases hws

/-- The first call of `openFile` is given the path or a beginning of it. -/
def Loaded (path : Str) (ops : List ConfigOp) : Prop :=
  ∃ name, ops.findSome? opened = some name ∧ strncmpEq name.length path (cstr name) = true

/-- A call that opens nothing works on the list alone. -/
theorem step_of_not_opened {op : ConfigOp} (h : opened op = none) (c : UtilsConfig F) :
    step fs c op = .ok { c with fileDataList := afterOp c.fileDataList op } := by
  cases op with
  | openFile fileName => cases h
  | setStringKey keyName keyValue =>
    unfold step setStringKey afterOp
    dsimp only
    split <;> rfl
  | getStringKey keyName defaultValue =>
    show Except.ok (c.getStringKey keyName defaultValue).2 = Except.ok { c with
      fileDataList := if keyName = [] ∨ keyName ∈ c.fileDataList then c.fileDataList
        else c.fileDataList.insert keyName defaultValue }
    congr 1
    unfold getStringKey
    cases hlookup : c.fileDataList.lookup keyName with
    | some value => rw [if_pos (Or.inr (UMap.mem_of_lookup hlookup))]
    | none =>
      have hmem := AList.lookup_eq_none.mp hlookup
      unfold setStringKey
      dsimp only
      by_cases hempty : keyName = []
      · rw [if_pos hempty, if_pos (Or.inl hempty)]
      · rw [if_neg hempty, if_neg fun h => h.elim hempty hmem]

/-- Once the file has been read, no call reads anything. -/
theorem run_after (ops : List ConfigOp) {c : UtilsConfig F}
    (h : c.fileHandler = some (f, (fs.contents f).length)) (hne : fs.contents f ≠ []) :
    ops.foldlM (step fs) c =
      .ok { c with
        filePath := lastPath c.filePath ops
        fileDataList := afterOps c.fileDataList ops } := by
  induction ops generalizing c with
  | nil => rfl
  | cons op ops ih =>
    rw [List.foldlM_cons]
    cases hop : opened op with
    | none =>
      have hrest := ih (c := { c with fileDataList := afterOp c.fileDataList op }) h
      rw [step_of_not_opened hop, ok_bind, hrest]
      cases op with
      | openFile fileName => cases hop
      | setStringKey keyName keyValue => rfl
      | getStringKey keyName defaultValue => rfl
    | some name =>
      cases op with
      | openFile fileName =>
        have hrest := ih (c := { c with filePath := fileName }) h
        rw [step, openFile_again fileName h hne, ok_bind, hrest]
        rfl
      | setStringKey keyName keyValue => cases hop
      | getStringKey keyName defaultValue => cases hop

/-- What an object holds after `ops`, by what it held before and the settings of its file. -/
structure HoldsAfter (path text : Str) (c : UtilsConfig F) (ops : List ConfigOp)
    (c' : UtilsConfig F) : Prop where
  filePath : c'.filePath = lastPath c.filePath ops
  loaded : Loaded path ops → ∀ k v, (settings text).lookup k = some v →
    ∃ v', c'.fileDataList.lookup k = some v' ∧ (v' = v ∨ Changed ops k)
  notLoaded : ¬ Loaded path ops → c'.fileDataList = afterOps c.fileDataList ops
  held : c'.fileDataList = held path text c.fileDataList ops

theorem loaded_openFile {path fileName : Str} {ops : List ConfigOp} :
    Loaded path (.openFile fileName :: ops) ↔ strncmpEq fileName.length path (cstr fileName) = true := by
  unfold Loaded
  rw [List.findSome?_cons]
  constructor
  · rintro ⟨name, ⟨⟩, hmatch⟩
    exact hmatch
  · intro hmatch
    exact ⟨fileName, rfl, hmatch⟩

theorem loaded_cons {path : Str} {op : ConfigOp} {ops : List ConfigOp} (h : opened op = none) :
    Loaded path (op :: ops) ↔ Loaded path ops := by
  unfold Loaded
  rw [List.findSome?_cons, h]

/-- The call that reads the file. -/
theorem run_open {path : Str} (hfile : WellFormed path (fs.contents f)) {c : UtilsConfig F}
    (fileName : Str) (ops : List ConfigOp) (h : c.fileHandler = some (f, 0))
    (hcheck : c.isCheckFile = false) :
    ∃ c', (ConfigOp.openFile fileName :: ops).foldlM (step fs) c = .ok c' ∧
      HoldsAfter path (fs.contents f) c (.openFile fileName :: ops) c' := by
  obtain ⟨ws, htexts⟩ := hfile.header
  have hopen : c.openFile fs fileName = _ := openFile_fresh (Or.inl h)
  rw [hcheck] at hopen
  generalize hlist : (readTexts fileName false none c.fileDataList (texts (fs.contents f))).2 =
    list at hopen
  generalize (readTexts fileName false none c.fileDataList (texts (fs.contents f))).1 =
    isCheckFile at hopen
  have hrest := run_after ops (c := { c with
    filePath := fileName
    fileHandler := some (f, (fs.contents f).length)
    isCheckFile := isCheckFile
    fileDataList := list }) rfl hfile.ne_nil
  refine ⟨{ c with
    filePath := lastPath fileName ops, fileHandler := some (f, (fs.contents f).length),
      isCheckFile := isCheckFile
    fileDataList := afterOps list ops }, ?_, ?_⟩
  · rw [List.foldlM_cons]
    show (c.openFile fs fileName >>= _) = _
    rw [hopen, ok_bind]
    exact hrest
  · by_cases hmatch : strncmpEq fileName.length path (cstr fileName) = true
    · have hread : list = UMap.insertAll (pairsOf (texts (fs.contents f)).tail) c.fileDataList := by
        rw [← hlist, htexts, readTexts, if_pos (by rw [hfile.clean.cstr_eq]; exact hmatch),
          readTexts_pairs,
          List.tail_cons]
      refine ⟨rfl, ?_, fun hno => absurd (loaded_openFile.mpr hmatch) hno, ?_⟩
      · intro _ k v hkv
        have hstart : list.lookup k = some v := by
          rw [hread, UMap.lookup_insertAll_or]
          exact Option.or_eq_some_iff.mpr (Or.inl hkv)
        obtain ⟨v', hv', hsame⟩ := afterOps_keeps ops hstart
        exact ⟨v', hv', hsame.imp id changed_cons⟩
      · rw [held, if_pos hmatch, hread]
    · have hsame : list = c.fileDataList := by
        rw [← hlist, htexts, readTexts, if_neg (by rw [hfile.clean.cstr_eq]; exact hmatch)]
      subst hsame
      refine ⟨rfl, fun hyes => absurd (loaded_openFile.mp hyes) hmatch, fun _ => rfl, ?_⟩
      rw [held, if_neg hmatch]

/-- From the open file, not yet read. -/
theorem run_before {path : Str} (hfile : WellFormed path (fs.contents f)) (ops : List ConfigOp)
    {c : UtilsConfig F} (h : c.fileHandler = some (f, 0)) (hcheck : c.isCheckFile = false) :
    ∃ c', ops.foldlM (step fs) c = .ok c' ∧ HoldsAfter path (fs.contents f) c ops c' := by
  induction ops generalizing c with
  | nil =>
    refine ⟨c, rfl, rfl, ?_, fun _ => rfl, rfl⟩
    rintro ⟨name, ⟨⟩, -⟩
  | cons op ops ih =>
    cases hop : opened op with
    | none =>
      obtain ⟨c', hrun, hholds⟩ :=
        ih (c := { c with fileDataList := afterOp c.fileDataList op }) h hcheck
      have hpath : lastPath c.filePath (op :: ops) = lastPath c.filePath ops := by
        cases op with
        | openFile fileName => cases hop
        | setStringKey keyName keyValue => rfl
        | getStringKey keyName defaultValue => rfl
      refine ⟨c', ?_, ?_, ?_, ?_, ?_⟩
      · rw [List.foldlM_cons, step_of_not_opened hop, ok_bind]
        exact hrun
      · rw [hpath]
        exact hholds.filePath
      · intro hloaded k v hkv
        obtain ⟨v', hv', hsame⟩ := hholds.loaded ((loaded_cons hop).mp hloaded) k v hkv
        exact ⟨v', hv', hsame.imp id changed_cons⟩
      · intro hno
        exact hholds.notLoaded fun hyes => hno ((loaded_cons hop).mpr hyes)
      · rw [hholds.held]
        cases op with
        | openFile fileName => cases hop
        | setStringKey keyName keyValue => rfl
        | getStringKey keyName defaultValue => rfl
    | some name =>
      cases op with
      | openFile fileName => exact run_open hfile fileName ops h hcheck
      | setStringKey keyName keyValue => cases hop
      | getStringKey keyName defaultValue => cases hop

/-! ## What a life leaves of the settings -/

theorem mem_pairsOf {ws : List Str} {e : Str × Str} (h : e ∈ pairsOf ws) :
    ∃ k ∈ ws, ∃ v ∈ ws, e = (cstr k, cstr v) := by
  fun_induction pairsOf ws with
  | case1 k v ws ih =>
    rcases List.mem_cons.mp h with rfl | h
    · exact ⟨k, List.mem_cons_self, v, List.mem_cons_of_mem k List.mem_cons_self, rfl⟩
    · obtain ⟨k', hk', v', hv', rfl⟩ := ih h
      exact ⟨k', List.mem_cons_of_mem k (List.mem_cons_of_mem v hk'), v',
        List.mem_cons_of_mem k (List.mem_cons_of_mem v hv'), rfl⟩
  | case2 ws _ => cases h

theorem clean_of_mem_texts {text w : Str} (h : w ∈ texts text) : Clean (cstr w) := by
  intro c hc
  have hmem : c ∈ w := (List.takeWhile_sublist _).subset hc
  obtain ⟨hleft, hright⟩ := free_of_mem_items h c hmem
  exact ⟨hleft, hright, noNul_cstr w c hc⟩

/-- The settings of a file have no brackets. -/
theorem clean_of_settings {text k v : Str} (h : (settings text).lookup k = some v) :
    Clean k ∧ Clean v := by
  unfold settings at h
  rcases UMap.lookup_insertAll (pairsOf (texts text).tail) (∅ : UMap Str Str) k with
    ⟨e, he, rfl, hlookup⟩ | ⟨-, hlookup⟩
  · obtain ⟨k, hk, v, hv, rfl⟩ := mem_pairsOf he
    rw [hlookup] at h
    cases h
    exact ⟨clean_of_mem_texts (List.mem_of_mem_tail hk), clean_of_mem_texts (List.mem_of_mem_tail hv)⟩
  · rw [hlookup] at h
    cases h

/-- After the life the file has every key it had, with its value unless `setStringKey` has changed it. -/
def Preserves [DecidableEq F] (ord : HashOrder) (fs : Files F) (f : F) (path : Str)
    (ops : List ConfigOp) : Prop :=
  Returns (life ord fs path ops) fun fs' =>
    ∀ k v, (settings (fs.contents f)).lookup k = some v →
      ∃ v', (settings (fs'.contents f)).lookup k = some v' ∧ (v' = v ∨ Changed ops k)

/-- What the object holds at the end reads back as one text each, and no key as another one that is in
the file and is not set. -/
structure Readable (text path : Str) (ops : List ConfigOp) : Prop where
  header : ReadsOne (lastPath path ops)
  pairs : ∀ k v, (held path text ∅ ops).lookup k = some v → ReadsOne k ∧ ReadsOne v ∧
    (asRead k = k ∨ (settings text).lookup (asRead k) = none ∨ Changed ops (asRead k))

/-- The settings have been read, or each key is set, or first asked for with its own value as default. -/
def KeepsKeys (text path : Str) (ops : List ConfigOp) : Prop :=
  Loaded path ops ∨ ∀ k v, (settings text).lookup k = some v →
    Changed ops k ∨ ∃ d, ops.findSome? (defaultOf k) = some d ∧ asRead d = v

section

variable {path : Str} {ops : List ConfigOp} {c : UtilsConfig F} {text : Str}
    {fileHandler : Option (F × Nat)}
  (h : HoldsAfter path text { fileHandler := fileHandler, filePath := path } ops c)
    (hread : Readable text path ops)

include h

/-- Without a reading call the object holds what the life has given. -/
theorem HoldsAfter.lookup_notLoaded (hno : ¬ Loaded path ops) {k : Str} (hchanged : ¬ Changed ops k) :
    c.fileDataList.lookup k = ops.findSome? (defaultOf k) := by
  rw [h.notLoaded hno, lookup_afterOps ops _ hchanged]
  rfl

/-- If the life keeps the keys, then the object holds each of them, with a value that is read back as the
old one unless the key is set. -/
theorem HoldsAfter.exists_lookup (hkeeps : KeepsKeys text path ops) {k v : Str}
    (hkv : (settings text).lookup k = some v) :
    ∃ w, c.fileDataList.lookup k = some w ∧ (Changed ops k ∨ asRead w = v) := by
  by_cases hloaded : Loaded path ops
  · obtain ⟨w, hw, hsame⟩ := h.loaded hloaded k v hkv
    refine ⟨w, hw, ?_⟩
    rcases hsame with rfl | hchanged
    · exact Or.inr (clean_of_settings hkv).2.asRead
    · exact Or.inl hchanged
  · by_cases hchanged : Changed ops k
    · obtain ⟨w, hw⟩ := exists_lookup_afterOps ops ∅ hchanged
      refine ⟨w, ?_, Or.inl hchanged⟩
      rw [h.notLoaded hloaded]
      exact hw
    · have hkeys := hkeeps.resolve_left hloaded
      obtain ⟨d, hd, hval⟩ := (hkeys k v hkv).resolve_left hchanged
      exact ⟨d, (h.lookup_notLoaded hloaded hchanged).trans hd, Or.inr hval⟩

include hread

/-- All that the object holds after its life is readable. -/
theorem HoldsAfter.readable {k v : Str} (hkv : c.fileDataList.lookup k = some v) :
    ReadsOne k ∧ ReadsOne v ∧
      (asRead k = k ∨ (settings text).lookup (asRead k) = none ∨ Changed ops (asRead k)) := by
  rw [h.held] at hkv
  exact hread.pairs k v hkv

/-- What is read back of the object's file, under a key of the old file. -/
theorem HoldsAfter.lookup_flushText (ord : HashOrder) {k v : Str}
    (hkv : (settings text).lookup k = some v) :
    (∀ w, c.fileDataList.lookup k = some w → ∃ v', (settings (c.flushText ord)).lookup k = some v') ∧
      (¬ Changed ops k → ∀ v', (settings (c.flushText ord)).lookup k = some v' →
        ∃ w, c.fileDataList.lookup k = some w ∧ asRead w = v') := by
  have hone : ∀ k v, c.fileDataList.lookup k = some v → ReadsOne k ∧ ReadsOne v := fun k v hkv =>
    ⟨(h.readable hread hkv).1, (h.readable hread hkv).2.1⟩
  have hpath : ReadsOne c.filePath := by
    rw [h.filePath]
    exact hread.header
  have hclean := (clean_of_settings hkv).1
  rw [settings_flushText ord c hpath hone]
  rcases UMap.lookup_insertAll ((ord.order c.fileDataList.entries).map fun iter =>
    (asRead iter.1, asRead iter.2))
    (∅ : UMap Str Str) k with ⟨e, he, hkey, hlookup⟩ | ⟨hnone, hlookup⟩
  · refine ⟨fun w _ => ⟨e.2, hlookup⟩, ?_⟩
    intro hchanged v' hv'
    obtain ⟨iter, hiter, rfl⟩ := List.mem_map.mp he
    have hentry := UMap.mem_entries.mp (ord.mem_order.mp hiter)
    rw [hlookup] at hv'
    cases hv'
    -- no other key is read back as this one
    rcases (h.readable hread hentry).2.2 with hsame | hnot | hset
    · refine ⟨iter.2, ?_, rfl⟩
      dsimp only at hkey
      rw [← hkey, hsame]
      exact hentry
    · dsimp only at hkey
      rw [hkey, hkv] at hnot
      cases hnot
    · dsimp only at hkey
      rw [hkey] at hset
      exact absurd hset hchanged
  · constructor
    · intro w hw
      exfalso
      have hmem := ord.mem_order.mpr (UMap.mem_entries.mpr hw)
      exact hnone _ (List.mem_map_of_mem hmem) hclean.asRead
    · intro _ v' hv'
      rw [hlookup] at hv'
      cases hv'

/-- A life that keeps the keys leaves them in the file that it writes. -/
theorem HoldsAfter.preserves (hkeeps : KeepsKeys text path ops) (ord : HashOrder) {k v : Str}
    (hkv : (settings text).lookup k = some v) :
    ∃ v', (settings (c.flushText ord)).lookup k = some v' ∧ (v' = v ∨ Changed ops k) := by
  obtain ⟨hwritten, hback⟩ := h.lookup_flushText hread ord hkv
  obtain ⟨w, hw, hval⟩ := h.exists_lookup hkeeps hkv
  obtain ⟨v', hv'⟩ := hwritten w hw
  refine ⟨v', hv', ?_⟩
  by_cases hchanged : Changed ops k
  · exact Or.inr hchanged
  · left
    obtain ⟨w', hw', rfl⟩ := hback hchanged v' hv'
    rw [hw] at hw'
    cases hw'
    exact hval.resolve_left hchanged

/-- A life that leaves the keys in the file that it writes has kept them. -/
theorem HoldsAfter.keepsKeys (ord : HashOrder) (hpreserved : ∀ k v, (settings text).lookup k = some v →
      ∃ v', (settings (c.flushText ord)).lookup k = some v' ∧ (v' = v ∨ Changed ops k)) :
    KeepsKeys text path ops := by
  by_cases hloaded : Loaded path ops
  · exact Or.inl hloaded
  · right
    intro k v hkv
    by_cases hchanged : Changed ops k
    · exact Or.inl hchanged
    · right
      obtain ⟨v', hv', hsame⟩ := hpreserved k v hkv
      obtain ⟨w, hw, hval⟩ := (h.lookup_flushText hread ord hkv).2 hchanged v' hv'
      rw [h.lookup_notLoaded hloaded hchanged] at hw
      exact ⟨w, hw, hval.trans (hsame.resolve_right hchanged)⟩

end

/-- The destructor writes one file. -/
theorem contents_destroy [DecidableEq F] (ord : HashOrder) (fs : Files F) (c : UtilsConfig F) (f : F) :
    (c.destroy ord fs).contents f =
      if fs.made (cstr c.filePath) = some f then c.flushText ord else fs.contents f := by
  unfold destroy flush
  cases hmade : fs.made (cstr c.filePath) with
  | none => rfl
  | some g =>
    show Function.update fs.contents g (c.flushText ord) f = _
    by_cases hsame : g = f
    · subst hsame
      rw [if_pos rfl]
      exact Function.update_self g _ _
    · rw [if_neg fun h => hsame (Option.some.inj h)]
      exact Function.update_of_ne (Ne.symm hsame) _ _

/-- **The life of a configuration object.**  The settings of its file survive it if it ends under
the name of another file, or if what it holds at the end is readable and it keeps the keys; and
they survive no other life at whose end it holds what is readable.  The files are written and read
byte for byte. -/
theorem preserves_iff [DecidableEq F] (ord : HashOrder) (fs : Files F) {f : F} {path : Str}
    (hne : path ≠ []) (hfound : fs.found (cstr path) = some f)
    (hfile : WellFormed path (fs.contents f)) (ops : List ConfigOp) :
    (fs.made (cstr (lastPath path ops)) ≠ some f ∨
        Readable (fs.contents f) path ops ∧ KeepsKeys (fs.contents f) path ops →
      Preserves ord fs f path ops) ∧
    (Readable (fs.contents f) path ops → Preserves ord fs f path ops →
      fs.made (cstr (lastPath path ops)) ≠ some f ∨ KeepsKeys (fs.contents f) path ops) := by
  have hnew : new fs path = { fileHandler := some (f, 0), filePath := path } := by
    unfold new openHandler
    rw [if_pos hne, hfound]
    rfl
  obtain ⟨c, hrun, hholds⟩ :=
    run_before hfile ops (c := { fileHandler := some (f, 0), filePath := path }) rfl rfl
  have hlife : life ord fs path ops = .ok (c.destroy ord fs) := by
    unfold life
    rw [hnew, hrun]
    rfl
  have hwrites := contents_destroy ord fs c f
  rw [hholds.filePath] at hwrites
  unfold Preserves
  rw [hlife, returns_ok, hwrites]
  by_cases hmade : fs.made (cstr (lastPath path ops)) = some f
  · rw [if_pos hmade]
    constructor
    · rintro (hother | ⟨hread, hkeeps⟩)
      · exact absurd hmade hother
      · intro k v hkv
        exact hholds.preserves hread hkeeps ord hkv
    · intro hread hpreserved
      exact Or.inr (hholds.keepsKeys hread ord hpreserved)
  · rw [if_neg hmade]
    constructor
    · intro _ k v hkv
      exact ⟨v, hkv, Or.inl rfl⟩
    · intro _ _
      exact Or.inl hmade

/-- A file with one setting. -/
def oneSetting : Files Str :=
  plainFiles fun f => if f = lit "p.cfg" then lit "[p.cfg]\n[ip]=[1]\n" else []

theorem preserves_iff_opened :
    Preserves .plain oneSetting (lit "p.cfg") (lit "p.cfg")
      [.openFile (lit "p.cfg"), .setStringKey (lit "port") (lit "80")] := by
  refine (preserves_iff .plain oneSetting (f := lit "p.cfg")
    (by decide) rfl ⟨by decide, [lit "ip", lit "1"], by decide⟩
    [.openFile (lit "p.cfg"), .setStringKey (lit "port") (lit "80")]).1 ?_
  right
  refine ⟨⟨(by decide : Clean (lit "p.cfg")).readsOne, fun k v hkv => ?_⟩,
    Or.inl ⟨lit "p.cfg", rfl, by decide⟩⟩
  have hall : ∀ e ∈ (held (lit "p.cfg") (oneSetting.contents (lit "p.cfg")) ∅
      [.openFile (lit "p.cfg"), .setStringKey (lit "port") (lit "80")]).entries,
          Clean e.1 ∧ Clean e.2 := by
    decide
  obtain ⟨hk, hv⟩ := hall ⟨k, v⟩ (UMap.mem_entries.mpr hkv)
  exact ⟨hk.readsOne, hv.readsOne, Or.inl hk.asRead⟩

/-- A life without a call leaves the header alone. -/
theorem not_preserves_unopened :
    WellFormed (lit "p.cfg") (oneSetting.contents (lit "p.cfg")) ∧
      ¬ Preserves .plain oneSetting (lit "p.cfg") (lit "p.cfg") [] := by
  refine ⟨⟨by decide, [lit "ip", lit "1"], by decide⟩, ?_⟩
  rintro ⟨fs', hlife, hpreserved⟩
  have hold : (settings (oneSetting.contents (lit "p.cfg"))).lookup (lit "ip") =
      some (lit "1") := by decide
  obtain ⟨v, hv, -⟩ := hpreserved (lit "ip") (lit "1") hold
  have hlost : (settings
    (((new oneSetting (lit "p.cfg")).destroy .plain oneSetting).contents (lit "p.cfg"))).lookup
      (lit "ip") = none := by decide
  cases hlife
  rw [hlost] at hv
  cases hv

end UtilsConfig

end FuServer
