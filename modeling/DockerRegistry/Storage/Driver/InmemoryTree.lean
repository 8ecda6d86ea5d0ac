import DockerRegistry.Storage.Driver.InmemoryFs

/-!
# Finding nodes in the in-memory driver's tree

What `find` returns for a path whose components lead to a node: that node,
unless the node is a directory with a child of the path's last name. Over trees
whose nodes keep the paths of their routes (`WfAt`), the second case is the
failure of `Stat` and `List` on a directory that exists.
-/

namespace DockerRegistry.Storage.Driver.Inmemory

open GoPath

namespace Node

/-! ## Lookups and routes -/

def child? (k : List Char) : Node → Option Node
  | .dir _ cs => lookupChild k cs
  | .file _ _ => none

theorem find_dir (p : List Char) (cs : List (List Char × Node)) (q : List Char) :
    (dir p cs).find q =
      if trimChars q ['/'] = [] then ([], dir p cs) else findIn (dir p cs) (trimChars q ['/']) cs :=
  rfl

@[simp] theorem get_nil (n : Node) : n.get [] = some n := by
  cases n <;> rfl

theorem get_cons (n : Node) (k : List Char) (ks : List (List Char)) :
    n.get (k :: ks) = (n.child? k).bind (·.get ks) := by
  cases n with
  | file p data => rfl
  | dir p cs =>
    induction cs with
    | nil => rfl
    | cons e cs ih =>
      obtain ⟨k', c⟩ := e
      by_cases hk : k' = k
      · simp [get, getIn, child?, lookupChild, hk]
      · simpa [get, getIn, child?, lookupChild, hk] using ih

theorem findIn_eq (d : Node) (q : List Char) (cs : List (List Char × Node)) :
    findIn d q cs =
      match lookupChild (splitQuery q).1 cs with
      | none => ([], d)
      | some (dir a b) =>
        ((splitQuery q).1 :: ((dir a b).find (splitQuery q).2).1, ((dir a b).find (splitQuery q).2).2)
      | some (file a b) => ([(splitQuery q).1], file a b) := by
  induction cs with
  | nil => rfl
  | cons e cs ih =>
    obtain ⟨k, c⟩ := e
    by_cases hk : k = (splitQuery q).1
    · subst hk
      cases c <;> simp [findIn, lookupChild]
    · simpa [findIn, lookupChild, hk] using ih

theorem get_find (d : Node) (q : List Char) : d.get (d.find q).1 = some (d.find q).2 := by
  refine @Node.find.induct (fun d q => d.get (d.find q).1 = some (d.find q).2)
    (fun d q cs => (findIn d q cs).1 = [] ∧ (findIn d q cs).2 = d ∨
      ∃ rest c, (findIn d q cs).1 = (splitQuery q).1 :: rest ∧ lookupChild (splitQuery q).1 cs = some c ∧
        c.get rest = some (findIn d q cs).2)
    ?_ ?_ ?_ ?_ ?_ ?_ ?_ d q
  · intro p data q
    rfl
  · intro p cs q _ hq
    have hq' : trimChars q ['/'] = [] := hq
    simp [find_dir, hq']
  · intro p cs q _ hq ih
    have hq' : ¬trimChars q ['/'] = [] := hq
    rw [find_dir, if_neg hq']
    rcases ih with ⟨h₁, h₂⟩ | ⟨rest, c, h₁, h₂, h₃⟩
    · rw [h₁, h₂]
      rfl
    · rw [h₁, get_cons]
      simp only [child?, h₂, Option.bind_some, h₃]
      rfl
  · intro d q
    exact .inl ⟨rfl, rfl⟩
  · intro d q cs a b ih
    have h : findIn d q (((splitQuery q).1, dir a b) :: cs) =
        ((splitQuery q).1 :: ((dir a b).find (splitQuery q).2).1, ((dir a b).find (splitQuery q).2).2) := by
      simp [findIn]
    rw [h]
    exact .inr ⟨_, dir a b, rfl, by simp [lookupChild], ih⟩
  · intro d q cs a b
    have h : findIn d q (((splitQuery q).1, file a b) :: cs) = ([(splitQuery q).1], file a b) := by
      simp [findIn]
    rw [h]
    exact .inr ⟨[], file a b, rfl, by simp [lookupChild], rfl⟩
  · intro d q k' c cs hk ih
    have hstep : findIn d q ((k', c) :: cs) = findIn d q cs := by simp [findIn, hk]
    rw [hstep]
    rcases ih with h | ⟨rest, c', h₁, h₂, h₃⟩
    · exact .inl h
    · exact .inr ⟨rest, c', h₁, by simp [lookupChild, hk, h₂], h₃⟩

/-! ## Finding a route -/

theorem joinElements_ne_nil {es : List (List Char)} (hne : es ≠ []) (hes : ∀ e ∈ es, PlainElement e) :
    joinElements es ≠ [] := by
  obtain ⟨e, rest, rfl⟩ := List.exists_cons_of_ne_nil hne
  have he := (hes e List.mem_cons_self).1
  intro h
  have hh := head?_joinElements he rest
  rw [h, List.head?_nil] at hh
  exact he (List.head?_eq_none_iff.mp hh.symm)

theorem splitQuery_cons {e : List Char} {rest : List (List Char)} (he : '/' ∉ e) (hrest : rest ≠ []) :
    splitQuery (joinElements (e :: rest)) = (e, joinElements rest) := by
  rw [joinElements_cons e hrest]
  unfold splitQuery
  rw [if_pos (by simp), takeWhile_append_sep he, dropWhile_append_sep he]
  rfl

theorem splitQuery_of_not_mem {e : List Char} (he : '/' ∉ e) : splitQuery e = (e, e) := by
  simp [splitQuery, he]

theorem find_joinElements (p : List Char) (cs : List (List Char × Node)) {es : List (List Char)}
    (hne : es ≠ []) (hes : ∀ e ∈ es, PlainElement e) :
    (dir p cs).find (joinElements es) = findIn (dir p cs) (joinElements es) cs := by
  rw [find_dir, trimChars_joinElements hne hes, if_neg (joinElements_ne_nil hne hes)]

/-- What `find` does at the node of the query's last component `c`: a file is the
answer, and a directory is searched again for `c`. -/
def findLast (c : List Char) : Node → List (List Char) × Node
  | dir p cs => (dir p cs).find c
  | file p data => ([], file p data)

theorem find_route {c : List Char} (hc : PlainElement c) :
    ∀ {pre : List (List Char)} {d n : Node}, (∀ e ∈ pre, PlainElement e) → d.get (pre ++ [c]) = some n →
      d.find (joinElements (pre ++ [c])) = (pre ++ [c] ++ (n.findLast c).1, (n.findLast c).2)
  | [], d, n, _, hget => by
    simp only [List.nil_append, get_cons, get_nil] at hget
    cases d with
    | file p data => simp [child?] at hget
    | dir p cs =>
      have hn : lookupChild c cs = some n := by simpa [child?] using hget
      have hj : joinElements [c] = c := by simp [joinElements]
      have hfind := @find_joinElements p cs [c] (List.cons_ne_nil _ _) (by simpa using hc)
      rw [hj] at hfind
      rw [List.nil_append, hj, hfind, findIn_eq, splitQuery_of_not_mem hc.2.1, hn]
      cases n <;> rfl
  | e :: pre, d, n, hpre, hget => by
    have he := hpre e List.mem_cons_self
    have hrest : ∀ x ∈ pre, PlainElement x := fun x hx => hpre x (List.mem_cons_of_mem _ hx)
    have hne : pre ++ [c] ≠ [] := by simp
    rw [List.cons_append, get_cons] at hget
    cases d with
    | file p data => simp [child?] at hget
    | dir p cs =>
      cases hm : lookupChild e cs with
      | none => simp [child?, hm] at hget
      | some m =>
        have hmget : m.get (pre ++ [c]) = some n := by simpa [child?, hm] using hget
        cases m with
        | file a b =>
          obtain ⟨x, xs, hx⟩ := List.exists_cons_of_ne_nil hne
          rw [hx, get_cons] at hmget
          simp [child?] at hmget
        | dir a b =>
          have ih := find_route hc hrest hmget
          have hall : ∀ x ∈ e :: (pre ++ [c]), PlainElement x := by
            intro x hx
            simp only [List.mem_cons, List.mem_append, List.not_mem_nil, or_false] at hx
            rcases hx with rfl | hx | rfl
            · exact he
            · exact hrest x hx
            · exact hc
          rw [List.cons_append, find_joinElements p cs (List.cons_ne_nil _ _) hall, findIn_eq,
            splitQuery_cons he.2.1 hne, hm]
          simp [ih]

theorem findLast_of_child_some {c : List Char} (hc : PlainElement c) {n x : Node} (hx : n.child? c = some x) :
    (n.findLast c).1 ≠ [] := by
  cases n with
  | file p data => simp [child?] at hx
  | dir p cs =>
    have hj : joinElements [c] = c := by simp [joinElements]
    have hfind := @find_joinElements p cs [c] (List.cons_ne_nil _ _) (by simpa using hc)
    rw [hj] at hfind
    have hx' : lookupChild c cs = some x := hx
    simp only [findLast]
    rw [hfind, findIn_eq, splitQuery_of_not_mem hc.2.1, hx']
    cases x <;> simp

/-! ## Trees that keep their paths -/

mutual

/-- The node at route `r` keeps its path: the path is that of the route, and in a
directory each entry is under a plain name, its node keeps its path at the route
extended by that name, and no two entries share a name. -/
def WfAt : List (List Char) → Node → Prop
  | r, file p _ => p = rooted r
  | r, dir p cs => p = rooted r ∧ (cs.map (·.1)).Nodup ∧ WfIn r cs

def WfIn (r : List (List Char)) : List (List Char × Node) → Prop
  | [] => True
  | (k, c) :: cs => PlainElement k ∧ c.WfAt (r ++ [k]) ∧ WfIn r cs

end

mutual

def decWfAt : (r : List (List Char)) → (n : Node) → Decidable (n.WfAt r)
  | r, file p _ => inferInstanceAs (Decidable (p = rooted r))
  | r, dir p cs =>
    have := decWfIn r cs
    inferInstanceAs (Decidable (p = rooted r ∧ (cs.map (·.1)).Nodup ∧ WfIn r cs))

def decWfIn (r : List (List Char)) : (cs : List (List Char × Node)) → Decidable (WfIn r cs)
  | [] => isTrue trivial
  | (k, c) :: cs =>
    have := decWfAt (r ++ [k]) c
    have := decWfIn r cs
    inferInstanceAs (Decidable (PlainElement k ∧ c.WfAt (r ++ [k]) ∧ WfIn r cs))

end

instance (r : List (List Char)) (n : Node) : Decidable (n.WfAt r) := decWfAt r n

theorem WfAt.path {r : List (List Char)} {n : Node} (h : n.WfAt r) : n.path = rooted r := by
  cases n with
  | file p data => exact h
  | dir p cs => exact h.1

theorem WfIn.lookupChild {r : List (List Char)} {k : List Char} {c : Node} :
    ∀ {cs : List (List Char × Node)}, WfIn r cs → lookupChild k cs = some c → PlainElement k ∧ c.WfAt (r ++ [k])
  | [], _, h => by simp [Node.lookupChild] at h
  | (k', c') :: cs, hw, h => by
    obtain ⟨hk', hc', hcs⟩ := hw
    by_cases hk : k' = k
    · subst hk
      simp only [Node.lookupChild, if_true, Option.some.injEq] at h
      subst h
      exact ⟨hk', hc'⟩
    · simp only [Node.lookupChild, hk, if_false] at h
      exact hcs.lookupChild h

theorem WfAt.get : ∀ {ks : List (List Char)} {r : List (List Char)} {n m : Node}, n.WfAt r → n.get ks = some m →
    (∀ k ∈ ks, PlainElement k) ∧ m.WfAt (r ++ ks)
  | [], r, n, m, h, hget => by
    simp only [get_nil, Option.some.injEq] at hget
    subst hget
    simpa using h
  | k :: ks, r, n, m, h, hget => by
    rw [get_cons] at hget
    cases n with
    | file p data => simp [child?] at hget
    | dir p cs =>
      cases hc : lookupChild k cs with
      | none => simp [child?, hc] at hget
      | some c =>
        obtain ⟨hk, hcw⟩ := h.2.2.lookupChild hc
        have hget' : c.get ks = some m := by simpa [child?, hc] using hget
        obtain ⟨hks, hm⟩ := WfAt.get hcw hget'
        refine ⟨?_, by simpa using hm⟩
        intro x hx
        rcases List.mem_cons.mp hx with rfl | hx
        · exact hk
        · exact hks x hx

theorem rooted_append_ne {rs extra : List (List Char)} (hrs : ∀ e ∈ rs, PlainElement e)
    (hextra : ∀ e ∈ extra, PlainElement e) (hne : extra ≠ []) : rooted (rs ++ extra) ≠ rooted rs := by
  intro h
  have hall : ∀ e ∈ rs ++ extra, PlainElement e := by
    intro e he
    rcases List.mem_append.mp he with he | he
    · exact hrs e he
    · exact hextra e he
  have := (ofList_rooted_inj hall hrs).mp (congrArg String.ofList h)
  exact hne (by simpa using this)

theorem find_rooted (p : List Char) (cs : List (List Char × Node)) {es : List (List Char)}
    (hne : es ≠ []) (hes : ∀ e ∈ es, PlainElement e) :
    (dir p cs).find (rooted es) = (dir p cs).find (joinElements es) := by
  rw [find_dir, trimChars_rooted hne hes, if_neg (joinElements_ne_nil hne hes), find_joinElements p cs hne hes]

end Node

theorem normalize_rooted {es : List (List Char)} (hne : es ≠ []) (hes : ∀ e ∈ es, PlainElement e) :
    normalize (String.ofList (rooted es)).toList = rooted es := by
  rw [String.toList_ofList, normalize, trimChars_rooted hne hes]
  rfl

/-- A directory that has a child of its own name is out of reach of `Stat` and
`List`: `find` goes on into the child with the same query, so the node it gives
has a longer route, and its path is not the one asked for. -/
theorem stat_list_child_named_alike {root : Node} (hwf : root.WfAt []) {pre : List (List Char)} {c : List Char}
    (hplain : ∀ e ∈ pre ++ [c], PlainElement e)
    (hvalid : pathRegexpMatch (String.ofList (rooted (pre ++ [c]))) = true)
    (hchild : ((root.get (pre ++ [c])).bind (·.child? c)).isSome = true) :
    let P := String.ofList (rooted (pre ++ [c]))
    stat root P = .error (.pathNotFound P) ∧
      (list root P = .error (.pathNotFound P) ∨ list root P = .error (.other "not a directory")) := by
  intro P
  have hrs : pre ++ [c] ≠ [] := by simp
  have hc : PlainElement c := hplain c (by simp)
  have hpre : ∀ e ∈ pre, PlainElement e := fun e he => hplain e (by simp [he])
  obtain ⟨n, hn, x, hx⟩ : ∃ n, root.get (pre ++ [c]) = some n ∧ ∃ x, n.child? c = some x := by
    cases hget : root.get (pre ++ [c]) with
    | none => simp [hget] at hchild
    | some n => exact ⟨n, rfl, Option.isSome_iff_exists.mp (by simpa [hget] using hchild)⟩
  obtain ⟨rp, rcs, rfl⟩ : ∃ rp rcs, root = Node.dir rp rcs := by
    cases root with
    | dir rp rcs => exact ⟨rp, rcs, rfl⟩
    | file p data =>
      obtain ⟨y, ys, hy⟩ := List.exists_cons_of_ne_nil hrs
      rw [hy, Node.get_cons] at hn
      simp [Node.child?] at hn
  have hnorm : normalize P.toList = rooted (pre ++ [c]) := normalize_rooted hrs hplain
  have hfind : (Node.dir rp rcs).find (rooted (pre ++ [c])) =
      (pre ++ [c] ++ (n.findLast c).1, (n.findLast c).2) := by
    rw [Node.find_rooted rp rcs hrs hplain]
    exact Node.find_route hc hpre hn
  have hextra : (n.findLast c).1 ≠ [] := Node.findLast_of_child_some hc hx
  have hget : (Node.dir rp rcs).get (pre ++ [c] ++ (n.findLast c).1) = some (n.findLast c).2 := by
    have := Node.get_find (Node.dir rp rcs) (rooted (pre ++ [c]))
    rwa [hfind] at this
  obtain ⟨hks, hfw⟩ := hwf.get hget
  have hfar : ∀ {ext : List (List Char)}, ext ≠ [] → (∀ e ∈ ext, PlainElement e) →
      rooted (pre ++ [c] ++ ext) ≠ rooted (pre ++ [c]) :=
    fun hne hext => Node.rooted_append_ne hplain hext hne
  have hpath : (n.findLast c).2.path ≠ rooted (pre ++ [c]) := by
    rw [hfw.path]
    exact hfar hextra (fun e he => hks e (List.mem_append_right _ he))
  have hok : (!pathRegexpMatch P && decide (P ≠ "/")) = false := by simp [P, hvalid]
  refine ⟨?_, ?_⟩
  · unfold stat
    rw [hok, if_neg Bool.false_ne_true]
    simp only [hnorm, hfind, ne_eq, hpath, not_false_eq_true, if_true]
  · unfold list
    rw [hok, if_neg Bool.false_ne_true]
    simp only [hnorm, hfind]
    cases hdir : (n.findLast c).2.isdir
    · exact Or.inr rfl
    · left
      set found := (n.findLast c).2
      have hmget := Node.get_find found (rooted (pre ++ [c]))
      obtain ⟨hks', hmw⟩ := hfw.get hmget
      have hmpath : (found.find (rooted (pre ++ [c]))).2.path ≠ rooted (pre ++ [c]) := by
        have hne : (n.findLast c).1 ++ (found.find (rooted (pre ++ [c]))).1 ≠ [] := by simp [hextra]
        rw [hmw.path, List.nil_append, List.append_assoc]
        refine hfar hne (fun e he => ?_)
        rcases List.mem_append.mp he with he | he
        · exact hks e (List.mem_append_right _ he)
        · exact hks' e he
      simp only [Bool.not_true, Bool.false_eq_true, if_false, Node.list, ne_eq, hmpath,
        not_false_eq_true, if_true]

theorem stat_list_child_named_alike_foo :
    let root := (putContent new "/foo/foo" [0x61]).1
    root.WfAt [] ∧ (∀ e ∈ [] ++ [['f', 'o', 'o']], PlainElement e) ∧
      pathRegexpMatch (String.ofList (rooted ([] ++ [['f', 'o', 'o']]))) = true ∧
      ((root.get ([] ++ [['f', 'o', 'o']])).bind (·.child? ['f', 'o', 'o'])).isSome = true ∧
      stat root "/foo" = .error (.pathNotFound "/foo") ∧
      (list root "/foo" = .error (.pathNotFound "/foo") ∨ list root "/foo" = .error (.other "not a directory")) := by
  intro root
  have hwf : root.WfAt [] := by decide
  have hplain : ∀ e ∈ [] ++ [['f', 'o', 'o']], PlainElement e := by
    intro e he
    simp only [List.nil_append, List.mem_singleton] at he
    subst he
    decide
  have hvalid : pathRegexpMatch (String.ofList (rooted ([] ++ [['f', 'o', 'o']]))) = true := by decide
  have hchild : ((root.get ([] ++ [['f', 'o', 'o']])).bind (·.child? ['f', 'o', 'o'])).isSome = true := by decide
  exact ⟨hwf, hplain, hvalid, hchild, stat_list_child_named_alike hwf hplain hvalid hchild⟩

end DockerRegistry.Storage.Driver.Inmemory
