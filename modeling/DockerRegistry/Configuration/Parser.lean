import DockerRegistry.Lib.GoDecimal
import DockerRegistry.Lib.GoPath

/-!
# Environment overrides of the configuration

`Parser.Parse` of `configuration/parser.go` applies every environment variable
named `<PREFIX>_A_B_…` to the parsed configuration: `overwriteFields` follows the
components `A`, `B`, … through the value with `reflect`. A struct consumes one
component, the name of a field in upper case, or none when the component names
a field of an inline struct; a map consumes one, its key; a slice consumes one,
its index, and appends an element when the index is its length; a pointer or a
non-nil empty interface consumes none, and a nil empty interface becomes a map.

The slice case recurses on the rest of the path whatever it is, so a variable
whose last component is a slice index enters the element with an empty path,
which `overwriteStruct` and `overwriteMap` index at `path[0]`.

Values are a tree of `reflect` kinds; the functions return the new value. An
update through `Value.Set` needs a settable value: one reached through a pointer,
a slice element or the field of a settable struct, and not a value read from a
map or out of an interface, where it panics. A Go runtime panic is the error
`.panic`, which nothing recovers. `yaml.Unmarshal` of a payload into a type is
the parameter `unmarshal`.
-/

namespace DockerRegistry.Configuration

open GoPath

/-- The types `overwriteFields` tells apart by their `reflect.Kind`, with what
`reflect.New` and `reflect.MakeMap` need of them. A struct field has its name and
whether its yaml tag options are `inline`; an interface is empty or has
methods. -/
inductive Ty
  | struct (fields : List (String × Bool × Ty))
  | ptr (elem : Ty)
  | map (stringKeys : Bool) (elem : Ty)
  | slice (elem : Ty)
  | iface (empty : Bool)
  | scalar (name : String)

/-- Values of those types; a nil map has no entries. -/
inductive Val
  | struct (fields : List (String × Bool × Val))
  | ptr (elem : Ty) (target : Option Val)
  | map (stringKeys : Bool) (elem : Ty) (entries : Option (List (String × Val)))
  | slice (elem : Ty) (items : List Val)
  | iface (empty : Bool) (dyn : Option Val)
  | scalar (name text : String)

mutual

/-- The zero value of a type, `reflect.New(t).Elem()`. -/
def Ty.zero : Ty → Val
  | .struct fields => .struct (zeroFields fields)
  | .ptr elem => .ptr elem none
  | .map stringKeys elem => .map stringKeys elem none
  | .slice elem => .slice elem []
  | .iface empty => .iface empty none
  | .scalar name => .scalar name ""

def zeroFields : List (String × Bool × Ty) → List (String × Bool × Val)
  | [] => []
  | (name, inline, t) :: rest => (name, inline, t.zero) :: zeroFields rest

end

mutual

def Val.ty : Val → Ty
  | .struct fields => .struct (fieldTypes fields)
  | .ptr elem _ => .ptr elem
  | .map stringKeys elem _ => .map stringKeys elem
  | .slice elem _ => .slice elem
  | .iface empty _ => .iface empty
  | .scalar name _ => .scalar name

def fieldTypes : List (String × Bool × Val) → List (String × Bool × Ty)
  | [] => []
  | (name, inline, v) :: rest => (name, inline, v.ty) :: fieldTypes rest

end

/-- The errors of `Parse`, by the message each prints. -/
inductive ParseError
  /-- a runtime panic -/
  | panic
  | nilPointer (fullpath : String)
  | nonNumericIndex (component : String)
  | undefinedIndex (component : String)
  | collision (name : String)
  /-- an error of `yaml.Unmarshal` -/
  | yaml (msg : String)
  /-- an error of the conversion function -/
  | conversion (msg : String)
  | env (name : String) (err : ParseError)
  deriving DecidableEq, Repr

def ParseError.message : ParseError → String
  | .panic => "runtime error: index out of range"
  | .nilPointer fullpath => "encountered nil pointer while handling environment variable " ++ fullpath
  | .nonNumericIndex component => "non-numeric index: " ++ component
  | .undefinedIndex component => "undefined index: " ++ component
  | .collision name => "field name collision in configuration object: " ++ name
  | .yaml msg => msg
  | .conversion msg => msg
  | .env name err => "parsing environment variable " ++ name ++ ": " ++ err.message

def toUpper (s : String) : String := String.ofList (s.toList.map Char.toUpper)

def toLower (s : String) : String := String.ofList (s.toList.map Char.toLower)

def equalFold (a b : String) : Bool := toUpper a = toUpper b

/-- Whether a map value is one that `overwriteMap` recreates rather than enters:
a nil pointer, interface or map. -/
def Val.isNilRef : Val → Bool
  | .ptr _ none | .iface _ none | .map _ _ none => true
  | _ => false

/-- `m.SetMapIndex(key, x)` on the entries of a non-nil map. -/
def setEntry (entries : List (String × Val)) (key : String) (x : Val) : List (String × Val) :=
  if entries.any (·.1 = key) then entries.map fun e => if e.1 = key then (key, x) else e
  else entries ++ [(key, x)]

/-- The object `overwriteStruct` makes for a nil map or pointer field before
entering it. -/
def madeField : Val → Option Val
  | .map stringKeys elem none => some (.map stringKeys elem (some []))
  | .ptr elem none => some (.ptr elem (some elem.zero))
  | _ => none

section Overwrite

variable (unmarshal : Ty → String → Except String Val) (fullpath payload : String)

mutual

/-- `overwriteFields`: the value after the override, given whether it is
settable. -/
def overwriteFields (v : Val) (settable : Bool) (path : List String) : Except ParseError Val :=
  match v with
  | .ptr elem target =>
    match target with
    | none => .error (.nilPointer fullpath)
    | some x => do
      let x ← overwriteFields x true path
      pure (.ptr elem (some x))
  | .struct fields => overwriteStruct fields settable path
  | .map stringKeys elem entries => overwriteMap stringKeys elem entries path
  | .slice elem items =>
    match path with
    -- `path[0]` of an empty path
    | [] => .error .panic
    | component :: rest =>
      match GoDecimal.parseInt component with
      | none => .error (.nonNumericIndex component)
      | some idx =>
        if idx > items.length then .error (.undefinedIndex component)
        else
          let grow := items.length = 0 ∨ idx = items.length
          -- `v.Set(reflect.Append(v, elem))` needs a settable slice
          if grow ∧ !settable then .error .panic
          else
            let items := if grow then items ++ [elem.zero] else items
            -- `v.Index(idx)` of a negative index
            if idx < 0 then .error .panic
            else
              match items[idx.toNat]? with
              | none => .error .panic
              | some x => do
                let x ← overwriteFields x true rest
                pure (.slice elem (items.set idx.toNat x))
  | .iface empty dyn =>
    if empty then
      match dyn with
      | some x => do
        let x ← overwriteFields x false path
        pure (.iface empty (some x))
      | none =>
        -- `v.Set(wrappedV)` of an implicit `map[string]any`
        if settable then do
          let m ← overwriteMap true (.iface true) (some []) path
          pure (.iface empty (some m))
        else .error .panic
    else pure v
  | .scalar _ _ => pure v
termination_by (path.length, sizeOf v, 1)
decreasing_by
  all_goals simp_wf
  all_goals first
    | (apply Prod.Lex.left; omega)
    | (apply Prod.Lex.right; apply Prod.Lex.left; omega)

def overwriteStruct (fields : List (String × Bool × Val)) (settable : Bool) (path : List String) :
    Except ParseError Val :=
  match structLoop settable path [] fields [] with
  | .error e => .error e
  | .ok (.inl fields) => pure (.struct fields)
  | .ok (.inr byUpperCase) =>
    match path with
    | [] => .error .panic
    | component :: rest =>
      match byUpperCase.idxOf? component with
      -- an unrecognized variable is ignored
      | none => pure (.struct fields)
      | some i =>
        match fields[i]? with
        | none => .error .panic
        | some (name, inline, field) =>
          match rest with
          | [] =>
            match unmarshal field.ty payload with
            | .error msg => .error (.yaml msg)
            | .ok x => if settable then pure (.struct (fields.set i (name, inline, x))) else .error .panic
          | next :: more =>
            if (madeField field).isSome ∧ !settable then .error .panic
            else do
              let x ← overwriteFields ((madeField field).getD field) settable (next :: more)
              pure (.struct (fields.set i (name, inline, x)))
termination_by (path.length, sizeOf fields, 2)
decreasing_by
  all_goals simp_wf
  all_goals first
    | (apply Prod.Lex.left; omega)
    | (apply Prod.Lex.right; apply Prod.Lex.left; omega)
    | (apply Prod.Lex.right; apply Prod.Lex.right; omega)

/-- The inline check of `overwriteStruct` on one field: the override diverted into
the field when it is an inline struct one of whose fields has the component's
name, in any case. -/
def inlineOverride (settable : Bool) (path : List String) (inline : Bool) (field : Val) :
    Option (Except ParseError Val) :=
  match inline, field with
  | true, .struct (first :: others) =>
    match path with
    | [] => some (.error .panic)
    | component :: more =>
      if (first :: others).any (equalFold ·.1 component) then
        some (overwriteFields (.struct (first :: others)) settable (component :: more))
      else none
  | _, _ => none
termination_by (path.length, sizeOf field, 2)
decreasing_by
  all_goals simp_wf
  all_goals (apply Prod.Lex.right; apply Prod.Lex.right; omega)

/-- The loop of `overwriteStruct` over the fields after `pre`, with the upper-case
names seen so far: the fields after an override diverted into an inline struct,
or all the names. -/
def structLoop (settable : Bool) (path : List String) (pre : List (String × Bool × Val)) :
    List (String × Bool × Val) → List String →
      Except ParseError (List (String × Bool × Val) ⊕ List String)
  | [], byUpperCase => .ok (.inr byUpperCase)
  | (name, inline, field) :: rest, byUpperCase =>
    match inlineOverride settable path inline field with
    | some (.error e) => .error e
    | some (.ok x) => .ok (.inl (pre ++ (name, inline, x) :: rest))
    | none =>
      if toUpper name ∈ byUpperCase then .error (.collision name)
      else structLoop settable path (pre ++ [(name, inline, field)]) rest (byUpperCase ++ [toUpper name])
termination_by fields => (path.length, sizeOf fields, 1)
decreasing_by
  all_goals simp_wf
  all_goals (apply Prod.Lex.right; apply Prod.Lex.left; omega)

def overwriteMap (stringKeys : Bool) (elem : Ty) (entries : Option (List (String × Val)))
    (path : List String) : Except ParseError Val :=
  -- a map with keys of another kind is ignored
  if !stringKeys then pure (.map stringKeys elem entries)
  else
    match path with
    | component :: next :: more =>
      match (entries.getD []).find? fun (e : String × Val) => toUpper e.1 = component with
      | some (key, x) =>
        if x.isNilRef then recreate stringKeys elem entries (component :: next :: more)
        else do
          let x ← overwriteFields x false (next :: more)
          pure (.map stringKeys elem (entries.map fun es => setEntry es key x))
      | none => recreate stringKeys elem entries (component :: next :: more)
    | [] => recreate stringKeys elem entries []
    | [component] => recreate stringKeys elem entries [component]
termination_by (path.length, 0, 1)
decreasing_by
  all_goals simp_wf
  all_goals first
    | (apply Prod.Lex.left; omega)
    | (apply Prod.Lex.right; apply Prod.Lex.left; omega)
    | (apply Prod.Lex.right; apply Prod.Lex.right; omega)

/-- The end of `overwriteMap`: the key made anew, from the rest of the path or
from the payload. -/
def recreate (stringKeys : Bool) (elem : Ty) (entries : Option (List (String × Val)))
    (path : List String) : Except ParseError Val := do
  let x ← match path with
    | _ :: next :: more =>
      match elem with
      | .map k e => overwriteFields (.map k e (some [])) true (next :: more)
      | _ => do
        let p ← overwriteFields (.ptr elem (some elem.zero)) true (next :: more)
        match p with
        | .ptr _ (some x) => pure x
        | x => pure x
    | _ =>
      match unmarshal elem payload with
      | .error msg => .error (.yaml msg)
      | .ok x => pure x
  match path, entries with
  | [], _ => .error .panic
  -- assignment to an entry of a nil map
  | _ :: _, none => .error .panic
  | component :: _, some es => pure (.map stringKeys elem (some (setEntry es (toLower component) x)))
termination_by (path.length, 0, 0)
decreasing_by
  all_goals simp_wf
  all_goals (apply Prod.Lex.left; omega)

end

end Overwrite

/-- An environment variable. -/
structure EnvVar where
  name : String
  value : String
  deriving DecidableEq, Repr

def sortEnv (env : List EnvVar) : List EnvVar := env.insertionSort fun a b => a.name ≤ b.name

/-- The loop of `Parse` over the environment: each variable with the prefix
overrides the value; an error stops the loop, prefixed with the variable's name,
and a panic unwinds. -/
def overrides (unmarshal : Ty → String → Except String Val) (pfx : String) :
    List EnvVar → Val → Except ParseError Val
  | [], v => pure v
  | envVar :: rest, v =>
    if hasPrefix envVar.name (toUpper pfx ++ "_") then
      let path := (envVar.name.toList.splitOn '_').map String.ofList
      match overwriteFields unmarshal envVar.name envVar.value v false path.tail with
      | .error .panic => .error .panic
      | .error err => .error (.env envVar.name err)
      | .ok v => overrides unmarshal pfx rest v
    else overrides unmarshal pfx rest v

/-- `Parse` from the value the YAML input was read into, `reflect.New(ParseAs)`:
the overrides of the sorted environment, then the version's conversion. -/
def parse (unmarshal : Ty → String → Except String Val) (conversion : Val → Except String Val)
    (pfx : String) (env : List EnvVar) (parseAs : Val) : Except ParseError Val := do
  let v ← overrides unmarshal pfx (sortEnv env) parseAs
  match conversion v with
  | .error msg => .error (.conversion msg)
  | .ok c => pure c

/-! ## Lemmas -/

theorem fieldTypes_names : ∀ fields : List (String × Bool × Val), (fieldTypes fields).map (·.1) = fields.map (·.1)
  | [] => by simp [fieldTypes]
  | (name, inline, v) :: rest => by simp [fieldTypes, fieldTypes_names rest]

theorem zeroFields_names : ∀ fields : List (String × Bool × Ty), (zeroFields fields).map (·.1) = fields.map (·.1)
  | [] => by simp [zeroFields]
  | (name, inline, t) :: rest => by simp [zeroFields, zeroFields_names rest]

theorem eq_struct_of_ty {x : Val} {tyFields : List (String × Bool × Ty)} (h : x.ty = .struct tyFields) :
    ∃ fields, x = .struct fields ∧ fields.map (·.1) = tyFields.map (·.1) := by
  cases x with
  | struct fields =>
    simp only [Val.ty, Ty.struct.injEq] at h
    exact ⟨fields, rfl, by rw [← h, fieldTypes_names]⟩
  | _ => simp [Val.ty] at h

section Lemmas
variable {unmarshal : Ty → String → Except String Val} {fullpath payload : String}

theorem inlineOverride_nil_path (settable : Bool) (inline : Bool) (field : Val) :
    inlineOverride unmarshal fullpath payload settable [] inline field = none ∨
      inlineOverride unmarshal fullpath payload settable [] inline field = some (.error .panic) := by
  rw [inlineOverride.eq_def]
  split
  · exact .inr rfl
  · exact .inl rfl

theorem structLoop_nil_path (settable : Bool) :
    ∀ (pre fields : List (String × Bool × Val)) (byUpperCase : List String),
      (byUpperCase ++ fields.map (toUpper ·.1)).Nodup →
      structLoop unmarshal fullpath payload settable [] pre fields byUpperCase = .error .panic ∨
        ∃ names, structLoop unmarshal fullpath payload settable [] pre fields byUpperCase = .ok (.inr names)
  | pre, [], byUpperCase, _ => .inr ⟨byUpperCase, by rw [structLoop]⟩
  | pre, (name, inline, field) :: rest, byUpperCase, hnodup => by
    have hfresh : toUpper name ∉ byUpperCase := by
      intro hmem
      exact (List.nodup_append.mp hnodup).2.2 _ hmem _ (by simp) rfl
    have hrest : ((byUpperCase ++ [toUpper name]) ++ rest.map (toUpper ·.1)).Nodup := by
      simpa using hnodup
    rw [structLoop]
    rcases @inlineOverride_nil_path unmarshal fullpath payload settable inline field with h | h
    · simp only [h, hfresh, if_false]
      exact structLoop_nil_path settable _ rest _ hrest
    · left
      simp only [h]

theorem overwriteStruct_nil_path (settable : Bool) {fields : List (String × Bool × Val)}
    (hnodup : (fields.map (toUpper ·.1)).Nodup) :
    overwriteStruct unmarshal fullpath payload fields settable [] = .error .panic := by
  rw [overwriteStruct]
  rcases @structLoop_nil_path unmarshal fullpath payload settable [] fields [] (by simpa using hnodup)
    with h | ⟨names, h⟩
  · rw [h]
  · rw [h]

theorem overwriteFields_struct (fields : List (String × Bool × Val)) (settable : Bool) (path : List String) :
    overwriteFields unmarshal fullpath payload (.struct fields) settable path =
      overwriteStruct unmarshal fullpath payload fields settable path := by
  rw [overwriteFields]

theorem overwriteFields_nil_of_names {x : Val} {tyFields : List (String × Bool × Ty)}
    (hx : ∃ fields, x = .struct fields ∧ fields.map (·.1) = tyFields.map (·.1))
    (hnodup : (tyFields.map (toUpper ·.1)).Nodup) (settable : Bool) :
    overwriteFields unmarshal fullpath payload x settable [] = .error .panic := by
  obtain ⟨fields, rfl, hnames⟩ := hx
  have hupper : fields.map (toUpper ·.1) = tyFields.map (toUpper ·.1) := by
    have := congrArg (List.map toUpper) hnames
    simpa [List.map_map, Function.comp_def] using this
  rw [overwriteFields_struct, overwriteStruct_nil_path settable (hupper ▸ hnodup)]

theorem parseInt_formatNat (n : ℕ) : GoDecimal.parseInt (GoDecimal.formatNat n) = some (n : ℤ) := by
  rw [← GoDecimal.formatInt_natCast, GoDecimal.parseInt_formatInt]

/-- The last component of a path indexing a slice of structs, at an element or
one past the last, enters the element with an empty path. -/
theorem overwriteFields_slice_last (settable : Bool) {tyFields : List (String × Bool × Ty)}
    (hnodup : (tyFields.map (toUpper ·.1)).Nodup) {items : List Val}
    (hitems : ∀ x ∈ items, x.ty = .struct tyFields) {i : ℕ} (hi : i ≤ items.length) :
    overwriteFields unmarshal fullpath payload (.slice (.struct tyFields) items) settable
      [GoDecimal.formatNat i] = .error .panic := by
  have hnames : ∀ x, x ∈ items ∨ x = (Ty.struct tyFields).zero →
      ∃ fields, x = .struct fields ∧ fields.map (·.1) = tyFields.map (·.1) := by
    rintro x (hx | rfl)
    · exact eq_struct_of_ty (hitems x hx)
    · exact ⟨zeroFields tyFields, rfl, zeroFields_names tyFields⟩
  have hle : ¬ (i : ℤ) > items.length := by omega
  rw [overwriteFields]
  simp only [parseInt_formatNat, hle, if_false]
  split_ifs with hgrow hset
  · rfl
  · rfl
  · split
    · rfl
    · rename_i x hx
      have hmem : x ∈ items ∨ x = (Ty.struct tyFields).zero := by
        simpa using List.mem_of_getElem? hx
      rw [overwriteFields_nil_of_names (hnames x hmem) hnodup]
      rfl
  · split
    · rfl
    · rename_i x hx
      rw [overwriteFields_nil_of_names (hnames x (.inl (List.mem_of_getElem? hx))) hnodup]
      rfl

theorem inlineOverride_not_inline (settable : Bool) (path : List String) (field : Val) :
    inlineOverride unmarshal fullpath payload settable path false field = none := by
  rw [inlineOverride.eq_def]

theorem structLoop_plain (settable : Bool) (path : List String) :
    ∀ (pre fields : List (String × Bool × Val)) (byUpperCase : List String),
      (∀ f ∈ fields, f.2.1 = false) → (byUpperCase ++ fields.map (toUpper ·.1)).Nodup →
      structLoop unmarshal fullpath payload settable path pre fields byUpperCase =
        .ok (.inr (byUpperCase ++ fields.map (toUpper ·.1)))
  | pre, [], byUpperCase, _, _ => by rw [structLoop, List.map_nil, List.append_nil]
  | pre, (name, inline, field) :: rest, byUpperCase, hplain, hnodup => by
    have hinline : inline = false := hplain _ List.mem_cons_self
    subst hinline
    have hfresh : toUpper name ∉ byUpperCase := by
      intro hmem
      exact (List.nodup_append.mp hnodup).2.2 _ hmem _ (by simp) rfl
    have hrest : ((byUpperCase ++ [toUpper name]) ++ rest.map (toUpper ·.1)).Nodup := by
      simpa using hnodup
    rw [structLoop, inlineOverride_not_inline]
    simp only [hfresh, if_false]
    rw [structLoop_plain settable path _ rest _ (fun f hf => hplain f (List.mem_cons_of_mem _ hf)) hrest]
    simp

theorem idxOf?_append_cons {pre post : List String} {a : String} (h : a ∉ pre) :
    (pre ++ a :: post).idxOf? a = some pre.length := by
  induction pre with
  | nil => simp [List.idxOf?_cons]
  | cons b pre ih =>
    have hb : b ≠ a := fun hb => h (hb ▸ List.mem_cons_self)
    rw [List.cons_append, List.idxOf?_cons, if_neg (by simpa using hb),
      ih (fun hm => h (List.mem_cons_of_mem _ hm))]
    rfl

theorem madeField_eq_none {x : Val} (hx : x.isNilRef = false) : madeField x = none := by
  cases x with
  | ptr elem target => cases target <;> simp_all [madeField, Val.isNilRef]
  | map stringKeys elem entries => cases entries <;> simp_all [madeField, Val.isNilRef]
  | _ => rfl

/-- A component naming a field of a plain struct enters that field with the rest
of the path, when the field is no nil map or pointer. -/
theorem overwriteStruct_field (settable : Bool) {pre post : List (String × Bool × Val)} {name : String}
    {x : Val} (hplain : ∀ f ∈ pre ++ (name, false, x) :: post, f.2.1 = false)
    (hnodup : ((pre ++ (name, false, x) :: post).map (toUpper ·.1)).Nodup) (hx : x.isNilRef = false)
    (next : String) (more : List String) :
    overwriteStruct unmarshal fullpath payload (pre ++ (name, false, x) :: post) settable
        (toUpper name :: next :: more) =
      (do
        let x ← overwriteFields unmarshal fullpath payload x settable (next :: more)
        pure (.struct (pre ++ (name, false, x) :: post))) := by
  have hfresh : toUpper name ∉ pre.map (toUpper ·.1) := by
    intro hmem
    have := (List.nodup_append.mp (by simpa using hnodup)).2.2 _ hmem (toUpper name) (by simp)
    exact this rfl
  have hidx : ((pre ++ (name, false, x) :: post).map (toUpper ·.1)).idxOf? (toUpper name) =
      some pre.length := by
    rw [List.map_append, List.map_cons, idxOf?_append_cons hfresh, List.length_map]
  rw [overwriteStruct, structLoop_plain settable _ [] _ [] hplain (by simpa using hnodup)]
  simp only [List.nil_append, hidx]
  have hget : (pre ++ (name, false, x) :: post)[pre.length]? = some (name, false, x) := by simp
  have hmade : madeField x = none := madeField_eq_none hx
  rw [hget]
  simp only [hmade, Option.isSome_none, Bool.false_eq_true, false_and, if_false, Option.getD_none]
  have hset : ∀ x' : Val, (pre ++ (name, false, x) :: post).set pre.length (name, false, x') =
      pre ++ (name, false, x') :: post := by
    intro x'
    simp
  simp only [hset]

theorem overwriteFields_ptr (elem : Ty) (x : Val) (settable : Bool) (path : List String) :
    overwriteFields unmarshal fullpath payload (.ptr elem (some x)) settable path =
      (do
        let x ← overwriteFields unmarshal fullpath payload x true path
        pure (.ptr elem (some x))) := by
  rw [overwriteFields]

end Lemmas

theorem overrides_panic {unmarshal : Ty → String → Except String Val} {pfx : String} {var : EnvVar}
    {v : Val} (hpre : hasPrefix var.name (toUpper pfx ++ "_") = true)
    (hpanic : overwriteFields unmarshal var.name var.value v false
      ((var.name.toList.splitOn '_').map String.ofList).tail = .error .panic) :
    ∀ l : List EnvVar, var ∈ l → (∀ e ∈ l, hasPrefix e.name (toUpper pfx ++ "_") = true → e = var) →
      overrides unmarshal pfx l v = .error .panic
  | [], hmem, _ => absurd hmem List.not_mem_nil
  | e :: rest, hmem, honly => by
    rw [overrides]
    by_cases he : hasPrefix e.name (toUpper pfx ++ "_") = true
    · obtain rfl := honly e List.mem_cons_self he
      simp only [he, if_true, hpanic]
    · have hne : var ≠ e := fun h => he (h ▸ hpre)
      simp only [he, Bool.false_eq_true, if_false]
      exact overrides_panic hpre hpanic rest (List.mem_of_ne_of_mem hne hmem)
        (fun e' h' => honly e' (List.mem_cons_of_mem _ h'))

/-! ## Notification endpoints -/

def ignoreTy : Ty :=
  .struct [("MediaTypes", false, .slice (.scalar "string")), ("Actions", false, .slice (.scalar "string"))]

/-- `Endpoint` of the notifications configuration; `http.Header` is a
`map[string][]string`. -/
def endpointTy : Ty :=
  .struct [("Name", false, .scalar "string"), ("Disabled", false, .scalar "bool"),
    ("URL", false, .scalar "string"), ("Headers", false, .map true (.slice (.scalar "string"))),
    ("Timeout", false, .scalar "time.Duration"), ("Threshold", false, .scalar "int"),
    ("Backoff", false, .scalar "time.Duration"), ("IgnoredMediaTypes", false, .slice (.scalar "string")),
    ("Ignore", false, ignoreTy)]

/-- The `Notifications` field of a configuration, with its events and endpoints. -/
def notifications (events : Val) (endpoints : List Val) : Val :=
  .struct [("EventConfig", false, events), ("Endpoints", false, .slice endpointTy endpoints)]

theorem envPath_endpoints (i : ℕ) :
    ((("REGISTRY_NOTIFICATIONS_ENDPOINTS_" ++ GoDecimal.formatNat i).toList.splitOn '_').map String.ofList) =
      ["REGISTRY", "NOTIFICATIONS", "ENDPOINTS", GoDecimal.formatNat i] := by
  have hlit : "REGISTRY_NOTIFICATIONS_ENDPOINTS_".toList =
      "REGISTRY".toList ++ '_' :: ("NOTIFICATIONS".toList ++ '_' :: ("ENDPOINTS".toList ++ ['_'])) := by
    decide
  have hdigits : '_' ∉ (GoDecimal.formatNat i).toList := GoDecimal.not_mem_formatNat (by decide) i
  rw [String.toList_append, hlit]
  simp only [List.append_assoc, List.cons_append]
  rw [List.splitOn_append_cons_self_of_not_mem (by decide), List.splitOn_append_cons_self_of_not_mem (by decide),
    List.splitOn_append_cons_self_of_not_mem (by decide), List.nil_append, List.splitOn_eq_singleton hdigits]
  simp

/-- An environment variable that appends an endpoint, or names one, by its index
alone: the slice case enters the `Endpoint` with an empty path, and
`overwriteStruct` panics on `path[0]`. -/
theorem parse_endpoint_index_panics (unmarshal : Ty → String → Except String Val)
    (conversion : Val → Except String Val) (env : List EnvVar)
    (henv : ∀ e ∈ env, hasPrefix e.name "REGISTRY_" = false)
    (cfgTy : Ty) (before after : List (String × Bool × Val))
    (hplain : ∀ f ∈ before ++ after, f.2.1 = false)
    (hnames : (before.map (toUpper ·.1) ++ "NOTIFICATIONS" :: after.map (toUpper ·.1)).Nodup)
    (events : Val) (endpoints : List Val) (hendpoints : ∀ e ∈ endpoints, e.ty = endpointTy)
    {i : ℕ} (hi : i ≤ endpoints.length) (payload : String) :
    parse unmarshal conversion "registry"
        (env ++ [⟨"REGISTRY_NOTIFICATIONS_ENDPOINTS_" ++ GoDecimal.formatNat i, payload⟩])
        (.ptr cfgTy (some (.struct (before ++ ("Notifications", false, notifications events endpoints) :: after)))) =
      .error .panic := by
  set name := "REGISTRY_NOTIFICATIONS_ENDPOINTS_" ++ GoDecimal.formatNat i
  have hupper : toUpper "Notifications" = "NOTIFICATIONS" ∧ toUpper "Endpoints" = "ENDPOINTS" := by decide
  have hslice : overwriteFields unmarshal name payload (.slice endpointTy endpoints) true
      [GoDecimal.formatNat i] = .error .panic :=
    overwriteFields_slice_last true (by decide) hendpoints hi
  have hnotif : overwriteFields unmarshal name payload (notifications events endpoints) true
      ["ENDPOINTS", GoDecimal.formatNat i] = .error .panic := by
    have h := @overwriteStruct_field unmarshal name payload true [("EventConfig", false, events)] []
      "Endpoints" (.slice endpointTy endpoints) (by simp)
      (by simp only [List.cons_append, List.nil_append, List.map_cons, List.map_nil]; decide) rfl
      (GoDecimal.formatNat i) []
    rw [notifications, overwriteFields_struct]
    rw [hupper.2] at h
    simp only [List.cons_append, List.nil_append] at h
    rw [h, hslice]
    rfl
  have hconfig : overwriteFields unmarshal name payload
      (.ptr cfgTy (some (.struct (before ++ ("Notifications", false, notifications events endpoints) :: after))))
      false ["NOTIFICATIONS", "ENDPOINTS", GoDecimal.formatNat i] = .error .panic := by
    have h := @overwriteStruct_field unmarshal name payload true before after "Notifications"
      (notifications events endpoints) (by simpa [or_comm] using hplain) (by simpa [hupper.1] using hnames)
      rfl "ENDPOINTS" [GoDecimal.formatNat i]
    rw [overwriteFields_ptr, overwriteFields_struct]
    rw [hupper.1] at h
    rw [h, hnotif]
    rfl
  have hpfx : toUpper "registry" ++ "_" = "REGISTRY_" := by decide
  have hpre : hasPrefix name (toUpper "registry" ++ "_") = true := by
    have hlit : "REGISTRY_".toList <+: "REGISTRY_NOTIFICATIONS_ENDPOINTS_".toList := by decide
    rw [hpfx, hasPrefix, List.isPrefixOf_iff_prefix, String.toList_append]
    exact hlit.trans (List.prefix_append _ _)
  have hpath : ((name.toList.splitOn '_').map String.ofList).tail =
      ["NOTIFICATIONS", "ENDPOINTS", GoDecimal.formatNat i] := by
    rw [envPath_endpoints]
    rfl
  have hperm := List.perm_insertionSort (fun a b : EnvVar => a.name ≤ b.name) (env ++ [⟨name, payload⟩])
  have hoverrides := @overrides_panic unmarshal "registry" ⟨name, payload⟩ _ hpre (by rw [hpath]; exact hconfig)
    (sortEnv (env ++ [⟨name, payload⟩])) (hperm.mem_iff.mpr (by simp)) (by
      intro e he hp
      rcases List.mem_append.mp (hperm.mem_iff.mp he) with h | h
      · rw [hpfx, henv e h] at hp
        exact absurd hp Bool.false_ne_true
      · exact List.mem_singleton.mp h)
  rw [parse, hoverrides]
  rfl
/-- `REGISTRY_NOTIFICATIONS_ENDPOINTS_0` over a configuration with no endpoint. -/
theorem parse_endpoint_index_panics_zero :
    parse (fun _ _ => .error "") .ok "registry" [⟨"REGISTRY_NOTIFICATIONS_ENDPOINTS_" ++ GoDecimal.formatNat 0, "x"⟩]
        (.ptr (Val.struct [("Version", false, .scalar "Version" "0.1"),
            ("Notifications", false, notifications (.struct [("IncludeReferences", false, .scalar "bool" "")]) [])]).ty
          (some (.struct [("Version", false, .scalar "Version" "0.1"),
            ("Notifications", false, notifications (.struct [("IncludeReferences", false, .scalar "bool" "")]) [])]))) =
      .error .panic :=
  parse_endpoint_index_panics _ _ [] (by simp) _ [("Version", false, .scalar "Version" "0.1")] [] (by simp)
    (by decide) _ [] (by simp) (Nat.zero_le _) "x"

end DockerRegistry.Configuration
