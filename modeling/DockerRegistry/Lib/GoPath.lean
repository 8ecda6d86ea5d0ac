import Mathlib.Data.String.Basic
import Mathlib.Tactic

/-!
# Go's string and slash-path functions

The functions of Go's `strings` and `path` packages, and of `path/filepath` on a
system whose separator is the slash, that path-handling code calls. They work on
the characters of a string; Go works on its bytes, which orders and splits ASCII
paths the same way.

`cleanChars` follows the rules `path.Clean` documents: one slash between
elements, no `.` element, a `..` element removing the element before it (kept at
the start of a relative path, dropped at the root), and `.` for an empty result.
`rel` follows the loop of `filepath.Rel` one element at a time.
-/

namespace GoPath

/-! ## strings -/

def hasPrefix (s pre : String) : Bool := pre.toList.isPrefixOf s.toList

def hasSuffix (s suf : String) : Bool := suf.toList.isSuffixOf s.toList

def trimSuffix (s suf : String) : String :=
  if hasSuffix s suf then String.ofList (s.toList.take (s.toList.length - suf.toList.length)) else s

def replaceAll (s : String) (old new : Char) : String :=
  String.ofList (s.toList.map fun c => if c = old then new else c)

def trimLeft (s cutset : String) : String := String.ofList (s.toList.dropWhile (· ∈ cutset.toList))

def trimRight (s cutset : String) : String :=
  String.ofList (s.toList.reverse.dropWhile (· ∈ cutset.toList)).reverse

/-- `unicode.IsSpace`: the Latin-1 spaces and the other characters of the
Unicode White_Space property. -/
def isSpace (c : Char) : Bool :=
  c.toNat ∈ [0x09, 0x0A, 0x0B, 0x0C, 0x0D, 0x20, 0x85, 0xA0, 0x1680, 0x2028, 0x2029, 0x202F, 0x205F, 0x3000] ||
    (0x2000 ≤ c.toNat && c.toNat ≤ 0x200A)

def trimSpace (s : String) : String :=
  String.ofList ((s.toList.dropWhile isSpace).reverse.dropWhile isSpace).reverse

/-- The characters of `strings.Replace(s, old, new, 1)`. -/
def replaceFirstChars (old new : List Char) : List Char → List Char
  | [] => if old.isPrefixOf [] then new else []
  | c :: cs => if old.isPrefixOf (c :: cs) then new ++ (c :: cs).drop old.length else c :: replaceFirstChars old new cs

/-- `strings.Replace(s, old, new, 1)`: the first occurrence of `old` replaced by
`new`; an empty `old` matches at the start. -/
def replaceFirst (s old new : String) : String := String.ofList (replaceFirstChars old.toList new.toList s.toList)

/-- `strings.Cut` at a one-character separator: the text before and after its
first occurrence, if it occurs. -/
def cut (s : String) (sep : Char) : Option (String × String) :=
  if sep ∈ s.toList then
    some (String.ofList (s.toList.takeWhile (· ≠ sep)), String.ofList ((s.toList.dropWhile (· ≠ sep)).drop 1))
  else none

/-! ## Elements -/

/-- The elements of a path: the runs between slashes, empty ones included. -/
def elements (p : List Char) : List (List Char) := p.splitOn '/'

def joinElements (es : List (List Char)) : List Char := ['/'].intercalate es

/-- An element `Clean` keeps as it is: not empty, no slash, neither `.` nor `..`. -/
def PlainElement (e : List Char) : Prop := e ≠ [] ∧ '/' ∉ e ∧ e ≠ ['.'] ∧ e ≠ ['.', '.']

instance : DecidablePred PlainElement := fun e =>
  inferInstanceAs (Decidable (e ≠ [] ∧ '/' ∉ e ∧ e ≠ ['.'] ∧ e ≠ ['.', '.']))

/-- A clean rooted path: a slash before each of its elements, `/` for none. -/
def rooted (es : List (List Char)) : List Char := '/' :: joinElements es

/-! ## path -/

/-- The element stack of `Clean`, most recent element first. -/
def cleanElements (isRooted : Bool) : List (List Char) → List (List Char) → List (List Char)
  | acc, [] => acc.reverse
  | acc, e :: es =>
    if e = [] ∨ e = ['.'] then cleanElements isRooted acc es
    else if e = ['.', '.'] then
      match acc with
      | x :: xs =>
        if x = ['.', '.'] then cleanElements isRooted (e :: acc) es else cleanElements isRooted xs es
      | [] => if isRooted then cleanElements isRooted [] es else cleanElements isRooted [e] es
    else cleanElements isRooted (e :: acc) es

def cleanChars (p : List Char) : List Char :=
  let isRooted := p.head? = some '/'
  let body := joinElements (cleanElements isRooted [] (elements p))
  if isRooted then '/' :: body else if body = [] then ['.'] else body

def clean (p : String) : String := String.ofList (cleanChars p.toList)

/-- `path.Join`: the non-empty elements joined by slashes and cleaned, or the
empty string when there is none. -/
def join (elems : List String) : String :=
  match elems.filter (· ≠ "") with
  | [] => ""
  | es => String.ofList (cleanChars (joinElements (es.map String.toList)))

/-- `path.Split`, and `filepath.Split`: the path up to and including its last
slash, and the rest. -/
def split (p : String) : String × String :=
  let file := (p.toList.reverse.takeWhile (· ≠ '/')).reverse
  (String.ofList (p.toList.take (p.toList.length - file.length)), String.ofList file)

def dir (p : String) : String := clean (split p).1

def isAbs (p : String) : Bool := hasPrefix p "/"

/-! ## On characters

The same functions on the characters of a string, for models that keep their
strings as characters. -/

def trimChars (s cutset : List Char) : List Char :=
  ((s.dropWhile (· ∈ cutset)).reverse.dropWhile (· ∈ cutset)).reverse

def trimPrefixChars (s pre : List Char) : List Char := if pre.isPrefixOf s then s.drop pre.length else s

def splitChars (p : List Char) : List Char × List Char :=
  let file := (p.reverse.takeWhile (· ≠ '/')).reverse
  (p.take (p.length - file.length), file)

def joinChars (elems : List (List Char)) : List Char :=
  match elems.filter (· ≠ []) with
  | [] => []
  | es => cleanChars (joinElements es)

/-! ## Ancestors -/

def properPrefixes {α : Type} (l : List α) : List (List α) := (List.range l.length).map l.take

def components (p : String) : List (List Char) := (elements p.toList).filter (· ≠ [])

def ancestors (p : String) : List String :=
  (properPrefixes (components p)).map fun es => String.ofList (rooted es)

/-! ## filepath.Rel -/

def dropCommon : List (List Char) → List (List Char) → List (List Char) × List (List Char)
  | b :: bs, t :: ts => if b = t then dropCommon bs ts else (b :: bs, t :: ts)
  | bs, ts => (bs, ts)

/-- The elements of a clean path past a common prefix. A lone empty element is
what is left of the root `/` or of an empty path: no element at all. -/
def remaining : List (List Char) → List (List Char)
  | [[]] => []
  | es => es

/-- `filepath.Rel`: the path that leads from `basepath` to `targpath`, going up
with `..` past their common elements. -/
def rel (basepath targpath : String) : Except String String :=
  let base := cleanChars basepath.toList
  let targ := cleanChars targpath.toList
  let cannot := "Rel: can't make " ++ targpath ++ " relative to " ++ basepath
  if targ = base then .ok "."
  else
    let base := if base = ['.'] then [] else base
    if (base.head? = some '/') ≠ (targ.head? = some '/') then .error cannot
    else
      let rest := dropCommon (elements base) (elements targ)
      let bs := remaining rest.1
      let ts := remaining rest.2
      if bs.head? = some ['.', '.'] then .error cannot
      else .ok (String.ofList (joinElements (bs.map (fun _ => ['.', '.']) ++ ts)))

/-! ## Lemmas -/

theorem elements_append_slash (a b : List Char) :
    elements (a ++ '/' :: b) = elements a ++ elements b :=
  List.splitOn_append_cons_self a b

theorem elements_joinElements {es : List (List Char)} (hes : ∀ e ∈ es, '/' ∉ e) (hne : es ≠ []) :
    elements (joinElements es) = es :=
  List.splitOn_intercalate '/' hes hne

theorem joinElements_elements (p : List Char) : joinElements (elements p) = p :=
  List.intercalate_splitOn '/'

theorem mem_elements {p e : List Char} (he : e ∈ elements p) : '/' ∉ e ∧ ∀ c ∈ e, c ∈ p := by
  induction p generalizing e with
  | nil =>
    simp only [elements, List.splitOn_nil, List.mem_singleton] at he
    subst he
    simp
  | cons c p ih =>
    rw [elements, List.splitOn_cons_eq_if_modifyHead] at he
    split_ifs at he with hc
    · rcases List.mem_cons.mp he with rfl | he
      · simp
      · obtain ⟨hslash, hsub⟩ := ih he
        exact ⟨hslash, fun c' hc' => List.mem_cons_of_mem _ (hsub c' hc')⟩
    · cases hL : p.splitOn '/' with
      | nil => exact absurd hL (List.splitOn_ne_nil _ _)
      | cons h t =>
        rw [hL, List.modifyHead_cons] at he
        have hmem : ∀ e' ∈ h :: t, e' ∈ elements p := fun e' he' => by rw [elements, hL]; exact he'
        rcases List.mem_cons.mp he with rfl | he
        · obtain ⟨hslash, hsub⟩ := ih (hmem h (List.mem_cons_self ..))
          have hc' : c ≠ '/' := fun h' => hc (by simp [h'])
          refine ⟨by simp [hc'.symm, hslash], fun c' hc'' => ?_⟩
          rcases List.mem_cons.mp hc'' with rfl | hc''
          · exact List.mem_cons_self ..
          · exact List.mem_cons_of_mem _ (hsub c' hc'')
        · obtain ⟨hslash, hsub⟩ := ih (hmem e (List.mem_cons_of_mem _ he))
          exact ⟨hslash, fun c' hc' => List.mem_cons_of_mem _ (hsub c' hc')⟩

theorem elements_rooted {es : List (List Char)} (hes : ∀ e ∈ es, '/' ∉ e) (hne : es ≠ []) :
    elements (rooted es) = [] :: es := by
  have h := elements_append_slash [] (joinElements es)
  rw [List.nil_append] at h
  rw [rooted, h, elements_joinElements hes hne]
  rfl

theorem elements_joinElements_of_ne_nil {ls : List (List Char)} (hne : ls ≠ []) :
    elements (joinElements ls) = ls.flatMap elements := by
  induction ls with
  | nil => contradiction
  | cons l ls ih =>
    cases ls with
    | nil => simp [joinElements]
    | cons l' ls' =>
      have hjoin : joinElements (l :: l' :: ls') = l ++ '/' :: joinElements (l' :: ls') := by
        simp [joinElements, List.intercalate_cons_cons]
      rw [hjoin, elements_append_slash, ih (List.cons_ne_nil _ _)]
      simp

theorem joinElements_append_singleton {es : List (List Char)} (hne : es ≠ []) (x : List Char) :
    joinElements (es ++ [x]) = joinElements es ++ '/' :: x := by
  induction es with
  | nil => contradiction
  | cons e es ih =>
    cases es with
    | nil => simp [joinElements]
    | cons e' es' =>
      have ih' := ih (List.cons_ne_nil _ _)
      simp only [joinElements, List.cons_append] at ih' ⊢
      rw [List.intercalate_cons_cons, ih', List.intercalate_cons_cons]
      simp

theorem cleanElements_of_plain (isRooted : Bool) {es : List (List Char)}
    (hes : ∀ e ∈ es, e = [] ∨ PlainElement e) (acc : List (List Char)) :
    cleanElements isRooted acc es = acc.reverse ++ es.filter (· ≠ []) := by
  induction es generalizing acc with
  | nil => simp [cleanElements]
  | cons e es ih =>
    have hrest : ∀ e ∈ es, e = [] ∨ PlainElement e := fun e he => hes e (List.mem_cons_of_mem _ he)
    rcases hes e (List.mem_cons_self ..) with rfl | ⟨hne, -, hdot, hdotdot⟩
    · simp [cleanElements, ih hrest]
    · simp [cleanElements, hne, hdot, hdotdot, ih hrest]

theorem cleanChars_rooted {es : List (List Char)} (hes : ∀ e ∈ es, PlainElement e) :
    cleanChars (rooted es) = rooted es := by
  cases es with
  | nil => rfl
  | cons e es =>
    have hne : e :: es ≠ [] := List.cons_ne_nil _ _
    generalize e :: es = es at hes hne ⊢
    have hslash : ∀ e ∈ es, '/' ∉ e := fun e he => (hes e he).2.1
    have hclean : cleanElements true [] ([] :: es) = es := by
      rw [cleanElements_of_plain true (by simpa using fun e he => Or.inr (hes e he))]
      simpa using fun e he => (hes e he).1
    have hhead : (rooted es).head? = some '/' := rfl
    simp only [cleanChars, hhead, elements_rooted hslash hne, decide_true, hclean, if_true]
    rfl

theorem cleanChars_of_elements {p : List Char} (hroot : p.head? = some '/')
    (hes : ∀ e ∈ elements p, e = [] ∨ PlainElement e) :
    cleanChars p = rooted ((elements p).filter (· ≠ [])) := by
  simp only [cleanChars, hroot, decide_true, if_true, cleanElements_of_plain true hes, List.reverse_nil,
    List.nil_append, rooted]

theorem dropCommon_append (l m : List (List Char)) : dropCommon l (l ++ m) = ([], m) := by
  induction l with
  | nil => cases m <;> rfl
  | cons e l ih => simp [dropCommon, ih]

theorem rel_rooted_child {ps : List (List Char)} (hne : ps ≠ []) (hps : ∀ e ∈ ps, PlainElement e)
    {x : List Char} (hx : PlainElement x) :
    rel (String.ofList (rooted ps)) (String.ofList (rooted (ps ++ [x]))) = .ok (String.ofList x) := by
  have hall : ∀ e ∈ ps ++ [x], PlainElement e := by
    simpa [or_imp, forall_and] using ⟨hps, hx⟩
  have hslash : ∀ e ∈ ps, '/' ∉ e := fun e he => (hps e he).2.1
  have hslash' : ∀ e ∈ ps ++ [x], '/' ∉ e := fun e he => (hall e he).2.1
  have hlen : rooted (ps ++ [x]) ≠ rooted ps := by
    intro h
    have := congrArg List.length h
    simp [rooted, joinElements_append_singleton hne] at this
  have hdrop : dropCommon (elements (rooted ps)) (elements (rooted (ps ++ [x]))) = ([], [x]) := by
    rw [elements_rooted hslash hne, elements_rooted hslash' (by simp), ← List.cons_append]
    exact dropCommon_append _ _
  have hbase : (if rooted ps = ['.'] then [] else rooted ps) = rooted ps := if_neg (by simp [rooted])
  unfold rel
  simp only [String.toList_ofList, cleanChars_rooted hps, cleanChars_rooted hall, hlen, if_false, hbase]
  have hrem : remaining [x] = [x] := by
    cases x with
    | nil => exact absurd rfl hx.1
    | cons c cs => rfl
  have hhead : ∀ es, (rooted es).head? = some '/' := fun _ => rfl
  have hnil : remaining [] = [] := rfl
  rw [hdrop]
  simp [hrem, hnil, joinElements, hhead]

theorem split_append_slash (p : List Char) {x : List Char} (hx : '/' ∉ x) :
    split (String.ofList (p ++ '/' :: x)) = (String.ofList (p ++ ['/']), String.ofList x) := by
  have hfile : ((p ++ '/' :: x).reverse.takeWhile (· ≠ '/')).reverse = x := by
    rw [List.reverse_append, List.reverse_cons, List.append_assoc,
      List.takeWhile_append_of_pos (fun c hc => by simpa using ne_of_mem_of_not_mem (List.mem_reverse.mp hc) hx)]
    simp
  have hlen : (p ++ '/' :: x).length - x.length = (p ++ ['/']).length := by simp; omega
  have happ : p ++ '/' :: x = (p ++ ['/']) ++ x := by simp
  simp only [split, String.toList_ofList, hfile, hlen]
  rw [happ, List.take_left]

theorem trimSuffix_slash (p : List Char) :
    trimSuffix (String.ofList (p ++ ['/'])) "/" = String.ofList p := by
  simp [trimSuffix, hasSuffix]

theorem hasPrefix_append (p q : List Char) :
    hasPrefix (String.ofList (p ++ q)) (String.ofList p) = true := by
  simp [hasPrefix, List.isPrefixOf_iff_prefix]

theorem head?_joinElements {a : List Char} (ha : a ≠ []) (rest : List (List Char)) :
    (joinElements (a :: rest)).head? = a.head? := by
  cases rest with
  | nil => simp [joinElements]
  | cons b rest =>
    obtain ⟨c, a, rfl⟩ := List.exists_cons_of_ne_nil ha
    simp [joinElements, List.intercalate_cons_cons]

theorem filter_flatMap_filter_nonempty (l : List String) :
    ((l.filter (· ≠ "")).flatMap fun y => elements y.toList).filter (· ≠ []) =
      (l.flatMap fun y => elements y.toList).filter (· ≠ []) := by
  induction l with
  | nil => rfl
  | cons y l ih =>
    by_cases hy : y = ""
    · subst hy
      simpa [elements] using ih
    · simpa [hy, List.filter_append] using ih

theorem join_of_rooted {x : String} {xs : List String} (hx : x.toList.head? = some '/')
    (hes : ∀ y ∈ x :: xs, ∀ e ∈ elements y.toList, e = [] ∨ PlainElement e) :
    join (x :: xs) = String.ofList (rooted (((x :: xs).flatMap fun y => elements y.toList).filter (· ≠ []))) := by
  have hxne : x.toList ≠ [] := by
    intro h
    rw [h] at hx
    contradiction
  have hx' : x ≠ "" := by
    intro h
    exact hxne (by rw [h]; rfl)
  have hfilter : (x :: xs).filter (· ≠ "") = x :: xs.filter (· ≠ "") := by simp [hx']
  have hhead : (joinElements (x.toList :: (xs.filter (· ≠ "")).map String.toList)).head? = some '/' := by
    rw [head?_joinElements hxne, hx]
  have hplain : ∀ e ∈ elements (joinElements (x.toList :: (xs.filter (· ≠ "")).map String.toList)),
      e = [] ∨ PlainElement e := by
    rw [elements_joinElements_of_ne_nil (List.cons_ne_nil _ _)]
    intro e he
    simp only [List.flatMap_cons, List.mem_append, List.mem_flatMap, List.mem_map, List.mem_filter] at he
    rcases he with he | ⟨_, ⟨y, ⟨hy, -⟩, rfl⟩, he⟩
    · exact hes x (List.mem_cons_self ..) e he
    · exact hes y (List.mem_cons_of_mem _ hy) e he
  unfold join
  rw [hfilter]
  simp only [List.map_cons]
  rw [cleanChars_of_elements hhead hplain, elements_joinElements_of_ne_nil (List.cons_ne_nil _ _),
    ← filter_flatMap_filter_nonempty (x :: xs), hfilter]
  simp [List.flatMap_map]

theorem elements_of_plain {e : List Char} (he : PlainElement e) : elements e = [e] :=
  List.splitOn_eq_singleton he.2.1

theorem join_rooted_plain {ps : List (List Char)} (hps : ∀ e ∈ ps, PlainElement e) (hne : ps ≠ [])
    {xs : List String} (hxs : ∀ x ∈ xs, ∀ e ∈ elements x.toList, PlainElement e) :
    join (String.ofList (rooted ps) :: xs) =
      String.ofList (rooted (ps ++ xs.flatMap fun x => elements x.toList)) := by
  have hslash : ∀ e ∈ ps, '/' ∉ e := fun e he => (hps e he).2.1
  have hflat : ((String.ofList (rooted ps) :: xs).flatMap fun y => elements y.toList) =
      [] :: ps ++ xs.flatMap fun x => elements x.toList := by
    rw [List.flatMap_cons, String.toList_ofList, elements_rooted hslash hne, List.cons_append]
  have hplain : ∀ y ∈ String.ofList (rooted ps) :: xs, ∀ e ∈ elements y.toList, e = [] ∨ PlainElement e := by
    intro y hy e he
    have he' : e ∈ (String.ofList (rooted ps) :: xs).flatMap fun y => elements y.toList :=
      List.mem_flatMap.mpr ⟨y, hy, he⟩
    rw [hflat] at he'
    simp only [List.cons_append, List.mem_cons, List.mem_append, List.mem_flatMap] at he'
    rcases he' with rfl | he' | ⟨x, hx, he'⟩
    · exact .inl rfl
    · exact .inr (hps e he')
    · exact .inr (hxs x hx e he')
  rw [join_of_rooted (by simp [rooted]) hplain, hflat]
  congr 2
  rw [List.cons_append, List.filter_cons_of_neg (by simp), List.filter_eq_self.mpr]
  intro e he
  rcases List.mem_append.mp he with he | he
  · simpa using (hps e he).1
  · obtain ⟨x, hx, he⟩ := List.mem_flatMap.mp he
    simpa using (hxs x hx e he).1

theorem cleanChars_joinElements_plain {es : List (List Char)} (hes : ∀ e ∈ es, PlainElement e)
    (hne : es ≠ []) : cleanChars (joinElements es) = joinElements es := by
  obtain ⟨e, es', rfl⟩ := List.exists_cons_of_ne_nil hne
  have he := hes e (List.mem_cons_self ..)
  have hhead : (joinElements (e :: es')).head? ≠ some '/' := by
    rw [head?_joinElements he.1]
    obtain ⟨c, cs, rfl⟩ := List.exists_cons_of_ne_nil he.1
    simp only [List.head?_cons, ne_eq, Option.some.injEq]
    rintro rfl
    exact he.2.1 (List.mem_cons_self ..)
  have hbody : joinElements (e :: es') ≠ [] := by
    rw [← List.length_pos_iff, joinElements]
    cases es' with
    | nil => simpa [List.length_pos_iff] using he.1
    | cons e' es'' => simp [List.intercalate_cons_cons]
  have hclean : cleanElements false [] (elements (joinElements (e :: es'))) = e :: es' := by
    rw [elements_joinElements (fun x hx => (hes x hx).2.1) hne,
      cleanElements_of_plain false (fun x hx => .inr (hes x hx))]
    simpa using fun x hx => (hes x hx).1
  simp [cleanChars, hhead, hclean, hbody]

theorem join_plain {xs : List String} (hxs : ∀ x ∈ xs, PlainElement x.toList) (hne : xs ≠ []) :
    join xs = String.ofList (joinElements (xs.map String.toList)) := by
  have hfilter : xs.filter (· ≠ "") = xs :=
    List.filter_eq_self.mpr fun x hx => by
      have := (hxs x hx).1
      simp only [ne_eq, decide_eq_true_eq]
      rintro rfl
      exact this rfl
  obtain ⟨x, xs', rfl⟩ := List.exists_cons_of_ne_nil hne
  unfold join
  rw [hfilter]
  simp only [List.map_cons]
  rw [cleanChars_joinElements_plain (by simpa using hxs) (List.cons_ne_nil _ _)]

theorem joinElements_append {ps xs : List (List Char)} (hps : ps ≠ []) (hxs : xs ≠ []) :
    joinElements (ps ++ xs) = joinElements ps ++ '/' :: joinElements xs := by
  induction ps with
  | nil => contradiction
  | cons p ps ih =>
    simp only [joinElements] at ih ⊢
    rw [List.cons_append, List.intercalate_cons_of_ne_nil (by simp_all)]
    by_cases hps' : ps = []
    · simp [hps']
    · simp [ih hps', List.intercalate_cons_of_ne_nil hps']

theorem map_replace_of_not_mem {l : List Char} {old : Char} (h : old ∉ l) (new : Char) :
    l.map (fun c => if c = old then new else c) = l := by
  induction l with
  | nil => rfl
  | cons c l ih =>
    have hc : c ≠ old := fun hc => h (hc ▸ List.mem_cons_self ..)
    simp [hc, ih (fun hm => h (List.mem_cons_of_mem _ hm))]

theorem replaceAll_of_not_mem {s : String} {old : Char} (h : old ∉ s.toList) (new : Char) :
    replaceAll s old new = s := by
  rw [replaceAll, map_replace_of_not_mem h, String.ofList_toList]

@[simp] theorem joinElements_singleton (e : List Char) : joinElements [e] = e := by
  simp [joinElements]

theorem joinElements_cons (e : List Char) {es : List (List Char)} (hes : es ≠ []) :
    joinElements (e :: es) = e ++ '/' :: joinElements es := by
  simpa using @joinElements_append [e] es (by simp) hes

theorem rooted_append {ps xs : List (List Char)} (hps : ps ≠ []) (hxs : xs ≠ []) :
    rooted (ps ++ xs) = rooted ps ++ '/' :: joinElements xs := by
  simp [rooted, joinElements_append hps hxs]

theorem takeWhile_append_sep {sep : Char} {a : List Char} (ha : sep ∉ a) (r : List Char) :
    (a ++ sep :: r).takeWhile (· ≠ sep) = a := by
  rw [List.takeWhile_append_of_pos (fun c hc => by simpa using ne_of_mem_of_not_mem hc ha)]
  simp

theorem dropWhile_append_sep {sep : Char} {a : List Char} (ha : sep ∉ a) (r : List Char) :
    (a ++ sep :: r).dropWhile (· ≠ sep) = sep :: r := by
  rw [List.dropWhile_append_of_pos (fun c hc => by simpa using ne_of_mem_of_not_mem hc ha)]
  simp

theorem cut_append {sep : Char} {a : String} (ha : sep ∉ a.toList) (b : String) :
    cut (a ++ String.singleton sep ++ b) sep = some (a, b) := by
  have hchars : (a ++ String.singleton sep ++ b).toList = a.toList ++ sep :: b.toList := by simp
  rw [cut, hchars, if_pos (by simp), takeWhile_append_sep ha, dropWhile_append_sep ha]
  simp

theorem append_slash_inj {a b r r' : List Char} (ha : '/' ∉ a) (hb : '/' ∉ b)
    (h : a ++ '/' :: r = b ++ '/' :: r') : a = b ∧ r = r' := by
  have hab : a = b := by
    rw [← takeWhile_append_sep ha r, ← takeWhile_append_sep hb r', h]
  subst hab
  exact ⟨rfl, by simpa using h⟩

theorem eq_of_slash_isPrefixOf {a b r : List Char} (ha : '/' ∉ a) (hb : '/' ∉ b)
    (h : (a ++ ['/']).isPrefixOf (b ++ '/' :: r) = true) : a = b := by
  obtain ⟨s, hs⟩ := List.isPrefixOf_iff_prefix.mp h
  exact (append_slash_inj ha hb (by simpa using hs)).1

/-! ## Ancestors of clean rooted paths -/

theorem properPrefixes_concat {α : Type} (l : List α) (x : α) :
    properPrefixes (l ++ [x]) = properPrefixes l ++ [l] := by
  have htake : ∀ k ∈ List.range l.length, (l ++ [x]).take k = l.take k := fun k hk =>
    List.take_append_of_le_length (List.mem_range.mp hk).le
  rw [properPrefixes, List.length_append, List.length_singleton, List.range_succ, List.map_append,
    List.map_congr_left htake, List.map_singleton, List.take_left]
  rfl

theorem mem_properPrefixes {α : Type} {l a : List α} : a ∈ properPrefixes l ↔ a <+: l ∧ a ≠ l := by
  simp only [properPrefixes, List.mem_map, List.mem_range]
  constructor
  · rintro ⟨k, hk, rfl⟩
    refine ⟨List.take_prefix k l, fun h => ?_⟩
    have hlen := congrArg List.length h
    simp only [List.length_take] at hlen
    omega
  · rintro ⟨hpre, hne⟩
    have hlen : a.length < l.length := lt_of_le_of_ne hpre.length_le fun h => hne (hpre.eq_of_length h)
    exact ⟨a.length, hlen, (List.prefix_iff_eq_take.mp hpre).symm⟩

theorem cleanElements_true_plain {es acc : List (List Char)} (hes : ∀ e ∈ es, '/' ∉ e)
    (hacc : ∀ e ∈ acc, PlainElement e) : ∀ e ∈ cleanElements true acc es, PlainElement e := by
  induction es generalizing acc with
  | nil => simpa [cleanElements] using hacc
  | cons e es ih =>
    have hrest : ∀ e ∈ es, '/' ∉ e := fun e' he' => hes e' (List.mem_cons_of_mem _ he')
    by_cases hskip : e = [] ∨ e = ['.']
    · simp only [cleanElements, if_pos hskip]
      exact ih hrest hacc
    · by_cases hdotdot : e = ['.', '.']
      · cases acc with
        | nil =>
          simp only [cleanElements, if_neg hskip, if_pos hdotdot, if_true]
          exact ih hrest hacc
        | cons x xs =>
          have hx : x ≠ ['.', '.'] := (hacc x (List.mem_cons_self ..)).2.2.2
          simp only [cleanElements, if_neg hskip, if_pos hdotdot, hx, if_false]
          exact ih hrest fun e he => hacc e (List.mem_cons_of_mem _ he)
      · have he : PlainElement e :=
          ⟨fun h => hskip (.inl h), hes e (List.mem_cons_self ..), fun h => hskip (.inr h), hdotdot⟩
        simp only [cleanElements, if_neg hskip, if_neg hdotdot]
        exact ih hrest (List.forall_mem_cons.mpr ⟨he, hacc⟩)

theorem components_rooted {es : List (List Char)} (hes : ∀ e ∈ es, PlainElement e) :
    components (String.ofList (rooted es)) = es := by
  cases es with
  | nil => decide
  | cons e es =>
    rw [components, String.toList_ofList, elements_rooted (fun e he => (hes e he).2.1) (List.cons_ne_nil _ _),
      List.filter_cons_of_neg (by simp), List.filter_eq_self.mpr fun e he => by simpa using (hes e he).1]

theorem ofList_rooted_inj {as bs : List (List Char)} (has : ∀ e ∈ as, PlainElement e)
    (hbs : ∀ e ∈ bs, PlainElement e) : String.ofList (rooted as) = String.ofList (rooted bs) ↔ as = bs :=
  ⟨fun h => by rw [← components_rooted has, h, components_rooted hbs], fun h => h ▸ rfl⟩

theorem exists_rooted_of_clean {p : String} (habs : isAbs p = true) (hclean : clean p = p) :
    ∃ es, (∀ e ∈ es, PlainElement e) ∧ String.ofList (rooted es) = p := by
  have hhead : p.toList.head? = some '/' := by
    unfold isAbs hasPrefix at habs
    cases h : p.toList with
    | nil => simp [h] at habs
    | cons c cs =>
      simp [h] at habs
      subst habs
      rfl
  have hp : String.ofList (rooted (cleanElements true [] (elements p.toList))) = clean p := by
    simp [clean, cleanChars, hhead, rooted]
  exact ⟨_, cleanElements_true_plain (fun e he => (mem_elements he).1) (by simp), hp.trans hclean⟩

theorem rooted_eq_flatMap {es : List (List Char)} (hne : es ≠ []) : rooted es = es.flatMap fun e => '/' :: e := by
  induction es with
  | nil => contradiction
  | cons e es ih =>
    cases es with
    | nil => simp [rooted]
    | cons e' es' =>
      rw [rooted, joinElements_cons e (List.cons_ne_nil _ _), List.flatMap_cons, ← ih (List.cons_ne_nil _ _)]
      rfl

theorem length_le_length_rooted (es : List (List Char)) : es.length ≤ (rooted es).length := by
  cases es with
  | nil => simp
  | cons e es =>
    rw [rooted_eq_flatMap (List.cons_ne_nil _ _)]
    generalize e :: es = es
    induction es with
    | nil => simp
    | cons e es ih =>
      simp only [List.flatMap_cons, List.length_cons, List.length_append]
      omega

theorem slash_flatMap_prefix_iff {as ps : List (List Char)} (has : ∀ e ∈ as, '/' ∉ e)
    (hps : ∀ e ∈ ps, '/' ∉ e) :
    (as.flatMap (fun e => '/' :: e) ++ ['/']) <+: (ps.flatMap (fun e => '/' :: e) ++ ['/']) ↔ as <+: ps := by
  have hstart : ∀ es : List (List Char), ∃ r, es.flatMap (fun e => '/' :: e) ++ ['/'] = '/' :: r := by
    intro es
    cases es <;> simp
  induction as generalizing ps with
  | nil =>
    obtain ⟨r, hr⟩ := hstart ps
    simp [hr]
  | cons a as ih =>
    cases ps with
    | nil =>
      simp only [List.prefix_nil, reduceCtorEq, iff_false]
      intro h
      have hlen := h.length_le
      simp at hlen
    | cons p ps =>
      have ha := has a (List.mem_cons_self ..)
      have hp := hps p (List.mem_cons_self ..)
      have ih' := @ih ps (fun e he => has e (List.mem_cons_of_mem _ he))
        (fun e he => hps e (List.mem_cons_of_mem _ he))
      obtain ⟨x, hx⟩ := hstart as
      obtain ⟨y, hy⟩ := hstart ps
      rw [hx, hy] at ih'
      simp only [List.flatMap_cons, List.cons_append, List.append_assoc, hx, hy, List.cons_prefix_cons,
        true_and, ← ih']
      constructor
      · rintro ⟨t, ht⟩
        obtain ⟨rfl, hrest⟩ := append_slash_inj ha hp (by simpa using ht)
        exact ⟨rfl, t, by simpa using hrest⟩
      · rintro ⟨rfl, t, ht⟩
        exact ⟨t, by simp [← ht]⟩

/-- The test of the walk of the S3 driver: with a slash after each, a path that
is not the root starts a clean rooted path exactly when it is the path or one of
its ancestors. -/
theorem hasPrefix_rooted_slash_iff {as ps : List (List Char)} (has : ∀ e ∈ as, PlainElement e)
    (hps : ∀ e ∈ ps, PlainElement e) (hne : as ≠ []) :
    hasPrefix (String.ofList (rooted ps) ++ "/") (String.ofList (rooted as) ++ "/") = true ↔ as <+: ps := by
  have hchars : ∀ es : List (List Char), (String.ofList (rooted es) ++ "/").toList = rooted es ++ ['/'] := by
    simp
  rw [hasPrefix, hchars, hchars, List.isPrefixOf_iff_prefix, rooted_eq_flatMap hne]
  rcases eq_or_ne ps [] with rfl | hps'
  · simp only [List.prefix_nil, hne, iff_false]
    intro h
    obtain ⟨a, as', rfl⟩ := List.exists_cons_of_ne_nil hne
    have hlen := h.length_le
    have ha := (has a (List.mem_cons_self ..)).1
    simp [rooted, joinElements] at hlen
    exact ha (List.eq_nil_of_length_eq_zero (by omega))
  · rw [rooted_eq_flatMap hps']
    exact slash_flatMap_prefix_iff (fun e he => (has e he).2.1) (fun e he => (hps e he).2.1)

theorem mem_ancestors_rooted {as ps : List (List Char)} (has : ∀ e ∈ as, PlainElement e)
    (hps : ∀ e ∈ ps, PlainElement e) :
    String.ofList (rooted as) ∈ ancestors (String.ofList (rooted ps)) ↔ as <+: ps ∧ as ≠ ps := by
  rw [ancestors, components_rooted hps, ← mem_properPrefixes]
  constructor
  · intro h
    obtain ⟨qs, hqs, heq⟩ := List.mem_map.mp h
    have hqs' : ∀ e ∈ qs, PlainElement e := fun e he => hps e ((mem_properPrefixes.mp hqs).1.subset he)
    rwa [← (ofList_rooted_inj hqs' has).mp heq]
  · exact fun h => List.mem_map_of_mem h

theorem ofList_rooted_nil : String.ofList (rooted []) = "/" := by decide

theorem dir_root : dir "/" = "/" := by decide

theorem cleanChars_rooted_slash {es : List (List Char)} (hes : ∀ e ∈ es, PlainElement e) (hne : es ≠ []) :
    cleanChars (rooted es ++ ['/']) = rooted es := by
  have hslash : ∀ e ∈ es, '/' ∉ e := fun e he => (hes e he).2.1
  have helems : elements (rooted es ++ ['/']) = [] :: es ++ [[]] := by
    rw [elements_append_slash, elements_rooted hslash hne]
    rfl
  have hplain : ∀ e ∈ elements (rooted es ++ ['/']), e = [] ∨ PlainElement e := by
    intro e he
    rw [helems] at he
    rcases List.mem_cons.mp he with rfl | he
    · exact .inl rfl
    rcases List.mem_append.mp he with he | he
    · exact .inr (hes e he)
    · exact .inl (List.mem_singleton.mp he)
  have hfilter : ([] :: es ++ [[]]).filter (· ≠ []) = es := by
    rw [List.cons_append, List.filter_cons, List.filter_append,
      List.filter_eq_self.mpr fun e he => by simpa using (hes e he).1]
    simp
  rw [cleanChars_of_elements (by simp [rooted]) hplain, helems, hfilter]

theorem dir_rooted_slash {es : List (List Char)} (hes : ∀ e ∈ es, PlainElement e) (hne : es ≠ []) :
    dir (String.ofList (rooted es ++ ['/'])) = String.ofList (rooted es) := by
  have h := split_append_slash (rooted es) (List.not_mem_nil (a := '/'))
  rw [dir, ← List.concat_eq_append, List.concat_eq_append, h, clean, String.toList_ofList,
    cleanChars_rooted_slash hes hne]

theorem dir_rooted_concat {es : List (List Char)} (hes : ∀ e ∈ es, PlainElement e) {x : List Char}
    (hx : PlainElement x) : dir (String.ofList (rooted (es ++ [x]))) = String.ofList (rooted es) := by
  rcases eq_or_ne es [] with rfl | hne
  · have h := split_append_slash [] hx.2.1
    simp only [List.nil_append] at h
    have hroot : rooted [x] = '/' :: x := by simp [rooted]
    rw [List.nil_append, hroot, dir, h, ofList_rooted_nil]
    exact (by decide : clean (String.ofList ['/']) = "/")
  · have hroot : rooted (es ++ [x]) = rooted es ++ '/' :: x := by
      simpa using rooted_append hne (List.cons_ne_nil x [])
    rw [dir, hroot, split_append_slash _ hx.2.1, clean, String.toList_ofList, cleanChars_rooted_slash hes hne]

/-! ## Trimming slashes -/

theorem dropWhile_slash_of_head {l : List Char} (h : l.head? ≠ some '/') : l.dropWhile (· ∈ ['/']) = l := by
  cases l with
  | nil => rfl
  | cons c cs =>
    have hc : c ≠ '/' := fun hc => h (by simp [hc])
    simp [hc]

theorem head?_joinElements_ne_slash {es : List (List Char)} (hne : es ≠ []) (hes : ∀ e ∈ es, PlainElement e) :
    (joinElements es).head? ≠ some '/' := by
  obtain ⟨e, rest, rfl⟩ := List.exists_cons_of_ne_nil hne
  have he := hes e List.mem_cons_self
  rw [head?_joinElements he.1]
  exact fun h => he.2.1 (List.mem_of_mem_head? h)

theorem getLast?_joinElements_ne_slash : ∀ {es : List (List Char)}, es ≠ [] → (∀ e ∈ es, PlainElement e) →
    (joinElements es).getLast? ≠ some '/'
  | [e], _, hes => by
    have hj : joinElements [e] = e := by simp [joinElements]
    rw [hj]
    exact fun h => (hes e List.mem_cons_self).2.1 (List.mem_of_getLast? h)
  | e :: e' :: rest, _, hes => by
    have ih := @getLast?_joinElements_ne_slash (e' :: rest) (List.cons_ne_nil _ _)
      (fun x hx => hes x (List.mem_cons_of_mem _ hx))
    have hne' := (hes e' (by simp)).1
    have hj : joinElements (e' :: rest) ≠ [] := by
      intro h
      have hh := head?_joinElements hne' rest
      rw [h, List.head?_nil] at hh
      exact hne' (List.head?_eq_none_iff.mp hh.symm)
    rw [joinElements_cons e (List.cons_ne_nil _ _), List.getLast?_append_of_ne_nil _ (List.cons_ne_nil _ _),
      List.getLast?_cons, List.getLast?_eq_some_getLast hj]
    simpa [List.getLast?_eq_some_getLast hj] using ih

theorem trimChars_joinElements {es : List (List Char)} (hne : es ≠ []) (hes : ∀ e ∈ es, PlainElement e) :
    trimChars (joinElements es) ['/'] = joinElements es := by
  unfold trimChars
  rw [dropWhile_slash_of_head (head?_joinElements_ne_slash hne hes),
    dropWhile_slash_of_head (by rw [List.head?_reverse]; exact getLast?_joinElements_ne_slash hne hes),
    List.reverse_reverse]

theorem trimChars_rooted {es : List (List Char)} (hne : es ≠ []) (hes : ∀ e ∈ es, PlainElement e) :
    trimChars (rooted es) ['/'] = joinElements es := by
  have hdrop : (rooted es).dropWhile (· ∈ ['/']) = (joinElements es).dropWhile (· ∈ ['/']) := by
    simp [rooted]
  rw [← trimChars_joinElements hne hes]
  unfold trimChars
  rw [hdrop]

/-! ## What Join keeps -/

/-- `path.Base`: the last element once trailing slashes are gone; `.` for the
empty path and `/` for a path of slashes. -/
def base (p : String) : String :=
  if p = "" then "."
  else
    let q := (p.toList.reverse.dropWhile (· = '/')).reverse
    if q = [] then "/" else String.ofList (q.reverse.takeWhile (· ≠ '/')).reverse

/-- A path whose elements `Clean` leaves as they are, empty ones apart. -/
def Tame (y : String) : Prop := ∀ e ∈ elements y.toList, e = [] ∨ PlainElement e

instance : DecidablePred Tame := fun y =>
  inferInstanceAs (Decidable (∀ e ∈ elements y.toList, e = [] ∨ PlainElement e))

theorem mem_rooted_of_mem {es : List (List Char)} {e : List Char} {c : Char} (he : e ∈ es) (hc : c ∈ e) :
    c ∈ rooted es := by
  rw [rooted_eq_flatMap (List.ne_nil_of_mem he)]
  exact List.mem_flatMap.mpr ⟨e, he, List.mem_cons_of_mem _ hc⟩

theorem mem_elements_of_mem {p : List Char} {c : Char} (hc : c ∈ p) (hs : c ≠ '/') : ∃ e ∈ elements p, c ∈ e := by
  have hne : elements p ≠ [] := by
    intro h
    have hp := joinElements_elements p
    rw [h] at hp
    rw [← hp] at hc
    simp [joinElements] at hc
  have hmem : c ∈ rooted (elements p) := by
    rw [rooted, joinElements_elements]
    exact List.mem_cons_of_mem _ hc
  rw [rooted_eq_flatMap hne] at hmem
  obtain ⟨e, he, hce⟩ := List.mem_flatMap.mp hmem
  rcases List.mem_cons.mp hce with rfl | hce
  · exact absurd rfl hs
  · exact ⟨e, he, hce⟩

theorem tame_rooted {ps : List (List Char)} (hps : ∀ e ∈ ps, PlainElement e) : Tame (String.ofList (rooted ps)) := by
  intro e he
  rw [String.toList_ofList] at he
  rcases eq_or_ne ps [] with rfl | hne
  · have hroot : elements (rooted []) = [[], []] := by decide
    rw [hroot] at he
    simp only [List.mem_cons, List.not_mem_nil, or_false, or_self] at he
    exact .inl he
  · rw [elements_rooted (fun e he => (hps e he).2.1) hne] at he
    rcases List.mem_cons.mp he with rfl | he
    · exact .inl rfl
    · exact .inr (hps e he)

theorem mem_join_of_mem {x : String} {xs : List String} (hx : x.toList.head? = some '/')
    (hes : ∀ y ∈ x :: xs, Tame y) {y : String} (hy : y ∈ x :: xs) {c : Char} (hc : c ∈ y.toList)
    (hs : c ≠ '/') : c ∈ (join (x :: xs)).toList := by
  rw [join_of_rooted hx hes, String.toList_ofList]
  obtain ⟨e, he, hce⟩ := mem_elements_of_mem hc hs
  refine mem_rooted_of_mem (List.mem_filter.mpr ⟨List.mem_flatMap.mpr ⟨y, hy, he⟩, ?_⟩) hce
  simpa using List.ne_nil_of_mem hce

theorem join_rooted_tame {x : String} {xs : List String} (hx : x.toList.head? = some '/')
    (hes : ∀ y ∈ x :: xs, Tame y) : (join (x :: xs)).toList.head? = some '/' ∧ Tame (join (x :: xs)) := by
  have hps : ∀ e ∈ ((x :: xs).flatMap fun y => elements y.toList).filter (· ≠ []), PlainElement e := by
    intro e he
    obtain ⟨he, hne⟩ := List.mem_filter.mp he
    obtain ⟨y, hy, he⟩ := List.mem_flatMap.mp he
    exact (hes y hy e he).resolve_left (by simpa using hne)
  rw [join_of_rooted hx hes]
  exact ⟨by simp [rooted], tame_rooted hps⟩

theorem trimSuffix_append (l s : List Char) : trimSuffix (String.ofList (l ++ s)) (String.ofList s) = String.ofList l := by
  simp [trimSuffix, hasSuffix, List.isSuffixOf_iff_suffix]

theorem base_append_slash (p : List Char) {x : List Char} (hx : PlainElement x) :
    base (String.ofList (p ++ '/' :: x ++ ['/'])) = String.ofList x := by
  obtain ⟨c, cs, hcs⟩ := List.exists_cons_of_ne_nil (List.reverse_ne_nil_iff.mpr hx.1)
  have hc : c ≠ '/' := by
    rintro rfl
    exact hx.2.1 (List.mem_reverse.mp (by rw [hcs]; exact List.mem_cons_self))
  have hdrop : (p ++ '/' :: x ++ ['/']).reverse.dropWhile (· = '/') = x.reverse ++ '/' :: p.reverse := by
    simp only [List.reverse_append, List.reverse_cons, List.reverse_nil, List.nil_append, List.append_assoc,
      List.cons_append, List.dropWhile_cons, decide_true, if_true, hcs, hc,
      decide_false, Bool.false_eq_true, if_false]
  have hne : (x.reverse ++ '/' :: p.reverse).reverse ≠ [] := by simp
  have htake : (x.reverse ++ '/' :: p.reverse).takeWhile (· ≠ '/') = x.reverse :=
    takeWhile_append_sep (fun h => hx.2.1 (List.mem_reverse.mp h)) _
  have hne' : String.ofList (p ++ '/' :: x ++ ['/']) ≠ "" := by
    intro h
    have := congrArg String.toList h
    simp at this
  unfold base
  rw [if_neg hne']
  simp only [String.toList_ofList, hdrop, List.reverse_reverse, htake]
  rw [if_neg hne]

end GoPath
