/-
What the fields of a target hold, without going through its body.

The fields of a target are put together statement by statement.  `left` says at once what
comes of it: of all assignments to a field, those from the last '=' on count, and what they
list is left, in its order, except for what a later '-=' lists.

* `updated_eq` — for the assignments to one field;
* `foldlM_assign_eq_ok` — for the statements of a body;
* `ofNode?_fields` — for calls.
-/
import GnLang.Proofs.Tree.Targets

namespace GnLang.Target

/-! ### What is left of the assignments to a field -/

/-- An assignment to a field: its operator, and the strings that it lists. -/
abbrev Step := AssignOp × List String

/-- Whether a '=' is among the assignments. -/
def resets (steps : List Step) : Bool := steps.any (·.1 = .set)

/-- Whether a '-=' that lists the string is among the assignments. -/
def removes (steps : List Step) (v : String) : Bool :=
  steps.any fun s => s.1 = .remove && s.2.contains v

/-- The assignments from the last '=' on, which are all of them if there is no '='. -/
def sinceReset : List Step → List Step
  | [] => []
  | s :: later => if resets later then sinceReset later else s :: later

/-- What '=' and '+=' list, one after the other, but for what a later '-=' lists. -/
def left : List Step → List String
  | [] => []
  | s :: later =>
    (if s.1 = .remove then [] else s.2.filter (!removes later ·)) ++ left later

theorem sinceReset_of_not_resets {steps : List Step} (h : resets steps = false) :
    sinceReset steps = steps := by
  cases steps with
  | nil => rfl
  | cons s later =>
    rw [resets, List.any_cons, Bool.or_eq_false_iff] at h
    rw [sinceReset, resets, h.2]
    rfl

/-- A field after assignments to it, made one after the other. -/
def updated (current : List String) (steps : List Step) : List String :=
  steps.foldl (fun c s => update c s.1 s.2) current

/-- A field after assignments to it.  What it held before is left like the rest, unless a '='
sets it anew. -/
theorem updated_eq (current : List String) (steps : List Step) :
    updated current steps =
      (if resets steps then [] else current.filter (!removes steps ·)) ++
        left (sinceReset steps) := by
  induction steps generalizing current with
  | nil => simp [updated, resets, removes, sinceReset, left]
  | cons s later ih =>
    obtain ⟨op, values⟩ := s
    rw [updated, List.foldl_cons, ← updated, ih, sinceReset]
    cases hlater : resets later with
    | true =>
      have hresets : resets ((op, values) :: later) = true := by
        rw [resets, List.any_cons, ← resets, hlater, Bool.or_true]
      rw [hresets]
      rfl
    | false =>
      rw [sinceReset_of_not_resets hlater]
      have hresets : resets ((op, values) :: later) = decide (op = .set) := by
        rw [resets, List.any_cons, ← resets, hlater, Bool.or_false]
      rw [hresets]
      cases op with
      | set => simp [update, left]
      | append => simp [update, left, removes]
      | remove =>
        have hkept : ∀ v, (!removes ((.remove, values) :: later) v) =
            (!removes later v && !values.contains v) := by
          intro v
          simp [removes, Bool.and_comm]
        simp [update, left, hkept, List.filter_filter]

/-! ### Assignments in bodies -/

/-- The word, the operator and the value of an assignment to a plain word. -/
def wordAssignment? : Node → Option (String × AssignOp × Node)
  | .assignment (.identifier n _) op v _ => some (n, op, v)
  | _ => none

/-- The assignments to a field that are statements of the body themselves, in their order. -/
def assignmentsTo (field : String) (ys : List Node) : List (AssignOp × Node) :=
  ((ys.filterMap wordAssignment?).filter (·.1 = field)).map (·.2)

/-- The node is a list of string literals, with the given values. -/
def Lists (x : Node) (values : List String) : Prop :=
  ∃ xs p, x = .list xs p ∧ List.Forall₂ (fun x v => ∃ q, x = .string v q) xs values

theorem stringValue?_eq_ok {x : Node} {v : String} :
    stringValue? x = .ok v ↔ ∃ q, x = .string v q := by
  constructor
  · intro h
    cases x with
    | string w q => cases h; exact ⟨q, rfl⟩
    | foreign f => cases f <;> cases h
    | _ => cases h
  · rintro ⟨q, rfl⟩
    rfl

theorem stringValues?_eq_ok {x : Node} {values : List String} :
    stringValues? x = .ok values ↔ Lists x values := by
  constructor
  · intro h
    cases x with
    | list xs p =>
      refine ⟨xs, p, rfl, ?_⟩
      exact (mapM_eq_ok.mp h).imp fun _ _ => stringValue?_eq_ok.mp
    | foreign f => cases f <;> cases h
    | _ => cases h
  · rintro ⟨xs, p, rfl, hxs⟩
    exact mapM_eq_ok.mpr (hxs.imp fun _ _ => stringValue?_eq_ok.mpr)

/-- The fields that targets have. -/
def fields : List String := ["sources", "public_deps"]

/-- The assignments, each with the strings that its value lists. -/
def Reads (assignments : List (AssignOp × Node)) (steps : List Step) : Prop :=
  List.Forall₂ (fun a s => a.1 = s.1 ∧ Lists a.2 s.2) assignments steps

variable {t t' : Target} {y : Node} {ys : List Node}

theorem assignmentsTo_append (field : String) (xs ys : List Node) :
    assignmentsTo field (xs ++ ys) = assignmentsTo field xs ++ assignmentsTo field ys := by
  simp [assignmentsTo]

theorem reads_nil {steps : List Step} : Reads [] steps ↔ steps = [] :=
  List.forall₂_nil_left_iff

theorem reads_singleton {op : AssignOp} {x : Node} {steps : List Step} :
    Reads [(op, x)] steps ↔ ∃ values, Lists x values ∧ steps = [(op, values)] := by
  constructor
  · rintro (_ | ⟨⟨rfl, hx⟩, _ | _⟩)
    exact ⟨_, hx, rfl⟩
  · rintro ⟨values, hx, rfl⟩
    exact .cons ⟨rfl, hx⟩ .nil

theorem Reads.append {as bs : List (AssignOp × Node)} {steps steps' : List Step}
    (h : Reads as steps) (h' : Reads bs steps') : Reads (as ++ bs) (steps ++ steps') :=
  List.rel_append h h'

theorem Reads.exists_append {as bs : List (AssignOp × Node)} {steps : List Step}
    (h : Reads (as ++ bs) steps) :
    ∃ ss ss', Reads as ss ∧ Reads bs ss' ∧ steps = ss ++ ss' := by
  induction as generalizing steps with
  | nil => exact ⟨[], steps, .nil, h, rfl⟩
  | cons a as ih =>
    rcases h with _ | ⟨ha, h⟩
    obtain ⟨ss, ss', hss, hss', rfl⟩ := ih h
    exact ⟨_ :: ss, ss', .cons ha hss, hss', rfl⟩

/-- All values list strings exactly if the assignments can be read. -/
theorem exists_reads_iff {as : List (AssignOp × Node)} :
    (∃ steps, Reads as steps) ↔ ∀ a ∈ as, ∃ values, Lists a.2 values := by
  induction as with
  | nil => exact iff_of_true ⟨[], .nil⟩ (List.forall_mem_nil _)
  | cons a as ih =>
    rw [List.forall_mem_cons, ← ih]
    constructor
    · rintro ⟨_, _ | ⟨⟨-, ha⟩, has⟩⟩
      exact ⟨⟨_, ha⟩, _, has⟩
    · rintro ⟨⟨values, ha⟩, steps, has⟩
      exact ⟨(a.1, values) :: steps, .cons ⟨rfl, ha⟩ has⟩

/-- A statement that assigns to none of the two fields changes nothing. -/
theorem assign_of_not_assigns (h : ∀ a, wordAssignment? y = some a → a.1 ∉ fields) :
    assign t y = .ok t := by
  rw [assign.eq_def]
  split
  · rename_i n q op x p
    have hn := h (n, op, x) rfl
    rw [if_neg fun hs => hn (by simp [fields, hs]), if_neg fun hd => hn (by simp [fields, hd])]
  · rfl

theorem eq_of_wordAssignment? {n : String} {op : AssignOp} {x : Node}
    (h : wordAssignment? y = some (n, op, x)) :
    ∃ q p, y = .assignment (.identifier n q) op x p := by
  rw [wordAssignment?.eq_def] at h
  split at h
  · cases h
    exact ⟨_, _, rfl⟩
  · cases h

/-- A statement changes each field by what it assigns to it. -/
theorem assign_eq_ok : assign t y = .ok t' ↔
    ∃ sources deps, Reads (assignmentsTo "sources" [y]) sources ∧
      Reads (assignmentsTo "public_deps" [y]) deps ∧
      t' = ⟨t.name, updated t.sources sources, updated t.publicDeps deps⟩ := by
  cases hy : wordAssignment? y with
  | none =>
    have hnone : ∀ field, assignmentsTo field [y] = [] := by simp [assignmentsTo, hy]
    rw [assign_of_not_assigns (by simp [hy]), hnone, hnone, Except.ok.injEq, eq_comm]
    simp [reads_nil, updated]
  | some a =>
    obtain ⟨n, op, x⟩ := a
    obtain ⟨q, p, rfl⟩ := eq_of_wordAssignment? hy
    have hone : ∀ field, assignmentsTo field [.assignment (.identifier n q) op x p] =
        if n = field then [(op, x)] else [] := by
      intro field
      by_cases hfield : n = field <;> simp [assignmentsTo, wordAssignment?, hfield]
    rw [hone, hone, assign]
    split
    · rename_i hsources
      rw [if_neg (by simp [hsources])]
      simp only [reads_nil, reads_singleton, bind_ok_iff, stringValues?_eq_ok]
      constructor
      · rintro ⟨values, hx, ⟨⟩⟩
        exact ⟨_, _, ⟨values, hx, rfl⟩, rfl, rfl⟩
      · rintro ⟨_, _, ⟨values, hx, rfl⟩, rfl, rfl⟩
        exact ⟨values, hx, rfl⟩
    · split
      · simp only [reads_nil, reads_singleton, bind_ok_iff, stringValues?_eq_ok]
        constructor
        · rintro ⟨values, hx, ⟨⟩⟩
          exact ⟨_, _, rfl, ⟨values, hx, rfl⟩, rfl⟩
        · rintro ⟨_, _, rfl, ⟨values, hx, rfl⟩, rfl⟩
          exact ⟨values, hx, rfl⟩
      · rw [Except.ok.injEq, eq_comm]
        simp [reads_nil, updated]

theorem updated_append (current : List String) (steps steps' : List Step) :
    updated (updated current steps) steps' = updated current (steps ++ steps') :=
  List.foldl_append.symm

/-- The statements of a body change each field by what they assign to it, in their order. -/
theorem foldlM_assign_eq_ok : ys.foldlM assign t = .ok t' ↔
    ∃ sources deps, Reads (assignmentsTo "sources" ys) sources ∧
      Reads (assignmentsTo "public_deps" ys) deps ∧
      t' = ⟨t.name, updated t.sources sources, updated t.publicDeps deps⟩ := by
  induction ys generalizing t with
  | nil =>
    rw [List.foldlM_nil]
    constructor
    · rintro ⟨⟩
      exact ⟨[], [], .nil, .nil, rfl⟩
    · rintro ⟨_, _, ⟨⟩, ⟨⟩, rfl⟩
      rfl
  | cons y ys ih =>
    have hsplit : ∀ field, assignmentsTo field (y :: ys) =
        assignmentsTo field [y] ++ assignmentsTo field ys := fun field =>
      assignmentsTo_append field [y] ys
    rw [List.foldlM_cons, bind_ok_iff, hsplit, hsplit]
    constructor
    · rintro ⟨u, hu, hrest⟩
      obtain ⟨ss, ds, hss, hds, rfl⟩ := assign_eq_ok.mp hu
      obtain ⟨ss', ds', hss', hds', rfl⟩ := ih.mp hrest
      refine ⟨_, _, hss.append hss', hds.append hds', ?_⟩
      rw [updated_append, updated_append]
    · rintro ⟨sources, deps, hs, hd, rfl⟩
      obtain ⟨ss, ss', hss, hss', rfl⟩ := hs.exists_append
      obtain ⟨ds, ds', hds, hds', rfl⟩ := hd.exists_append
      refine ⟨_, assign_eq_ok.mpr ⟨ss, ds, hss, hds, rfl⟩, ih.mpr ⟨ss', ds', hss', hds', ?_⟩⟩
      rw [updated_append, updated_append]

/-! ### Calls -/

/-- A call as texts have them: its arguments are a list, and so is its body if it has one. -/
def declaration (n : String) (xs : List Node) (q : Pos) (body : Option (List Node × Pos))
    (p : Pos) : Node :=
  .call n (.list xs q) (body.map fun b => .list b.1 b.2) p

/-- The statements of the body, none if there is no body. -/
def bodyOf (body : Option (List Node × Pos)) : List Node := body.elim [] (·.1)

variable {n : String} {xs : List Node} {q p : Pos} {body : Option (List Node × Pos)}

theorem ofNode?_declaration (name : String) (r : Pos) :
    ofNode? (declaration n [.string name r] q body p) =
      (bodyOf body).foldlM assign ⟨name, [], []⟩ := by
  cases body <;> rfl

theorem ofNode?_declaration_of_ne (h : ∀ name r, xs ≠ [.string name r]) :
    ofNode? (declaration n xs q body p) = .error (.badName n p.line) := by
  rw [declaration, ofNode?, Node.asCall?]
  simp only [ofCall?]

theorem ofNode?_declaration_eq_ok : ofNode? (declaration n xs q body p) = .ok t ↔
    ∃ name r sources deps, xs = [.string name r] ∧
      Reads (assignmentsTo "sources" (bodyOf body)) sources ∧
      Reads (assignmentsTo "public_deps" (bodyOf body)) deps ∧
      t = ⟨name, left (sinceReset sources), left (sinceReset deps)⟩ := by
  have hfresh : ∀ steps, updated [] steps = left (sinceReset steps) := by
    intro steps
    rw [updated_eq]
    simp
  constructor
  · intro h
    by_cases hname : ∃ name r, xs = [.string name r]
    · obtain ⟨name, r, rfl⟩ := hname
      rw [ofNode?_declaration, foldlM_assign_eq_ok] at h
      obtain ⟨sources, deps, hs, hd, rfl⟩ := h
      refine ⟨name, r, sources, deps, rfl, hs, hd, ?_⟩
      rw [hfresh, hfresh]
    · rw [ofNode?_declaration_of_ne fun name r hxs => hname ⟨name, r, hxs⟩] at h
      cases h
  · rintro ⟨name, r, sources, deps, rfl, hs, hd, rfl⟩
    rw [ofNode?_declaration, foldlM_assign_eq_ok]
    refine ⟨sources, deps, hs, hd, ?_⟩
    rw [hfresh, hfresh]

theorem isOfProgram_of_declaration {f : Fault} (hnodes : (declaration n xs q body p).foreign? = none)
    (h : ofNode? (declaration n xs q body p) = .error f) : f.isOfProgram = true := by
  have hcall : ofCall? ⟨n, .list xs q, body.map fun b => .list b.1 b.2, p⟩ = .error f := h
  refine isOfProgram_of_ofCall? rfl ?_ hcall
  cases body with
  | none => exact .inl rfl
  | some b =>
    obtain ⟨-, hys⟩ := Option.or_eq_none_iff.mp hnodes
    exact .inr ⟨b.1, b.2, rfl, fun y hy => foreign?_eq_none_of_mem hys hy⟩

/-- Whether the statement assigns to one of the two fields. -/
def assignsField (y : Node) : Bool := (wordAssignment? y).any (fields.contains ·.1)

theorem foldlM_assign_filter (t : Target) (ys : List Node) :
    (ys.filter assignsField).foldlM assign t = ys.foldlM assign t := by
  induction ys generalizing t with
  | nil => rfl
  | cons y ys ih =>
    rw [List.filter_cons, List.foldlM_cons]
    split
    · rw [List.foldlM_cons]
      congr 1
      funext u
      exact ih u
    · rename_i hnone
      have hkeeps : assign t y = .ok t := by
        refine assign_of_not_assigns fun a ha hfield => hnone ?_
        simpa [assignsField, ha] using hfield
      rw [hkeeps, ih]
      rfl

/-- A call declares no target exactly if it does not name one, or a value assigned to one of the
two fields does not list strings. -/
theorem forall_ofNode?_ne_ok_iff : (∀ t, ofNode? (declaration n xs q body p) ≠ .ok t) ↔
    (¬ ∃ name r, xs = [.string name r]) ∨
      ∃ field ∈ fields, ∃ a ∈ assignmentsTo field (bodyOf body), ¬ ∃ values, Lists a.2 values := by
  rw [← not_iff_not]
  push Not
  constructor
  · rintro ⟨t, ht⟩
    obtain ⟨name, r, sources, deps, hname, hs, hd, -⟩ := ofNode?_declaration_eq_ok.mp ht
    refine ⟨⟨name, r, hname⟩, ?_⟩
    rw [fields, List.forall_mem_cons, List.forall_mem_singleton]
    exact ⟨exists_reads_iff.mp ⟨sources, hs⟩, exists_reads_iff.mp ⟨deps, hd⟩⟩
  · rintro ⟨⟨name, r, hname⟩, hvalues⟩
    rw [fields, List.forall_mem_cons, List.forall_mem_singleton] at hvalues
    obtain ⟨sources, hs⟩ := exists_reads_iff.mpr hvalues.1
    obtain ⟨deps, hd⟩ := exists_reads_iff.mpr hvalues.2
    exact ⟨_, ofNode?_declaration_eq_ok.mpr ⟨name, r, sources, deps, hname, hs, hd, rfl⟩⟩

/-- The statements that assign to neither field may be left out. -/
theorem ofNode?_filter (n : String) (xs : List Node) (q : Pos)
    (body : Option (List Node × Pos)) (p : Pos) :
    ofNode? (declaration n xs q (body.map fun b => (b.1.filter assignsField, b.2)) p) =
      ofNode? (declaration n xs q body p) := by
  by_cases hname : ∃ name r, xs = [.string name r]
  · obtain ⟨name, r, rfl⟩ := hname
    rw [ofNode?_declaration, ofNode?_declaration, ← foldlM_assign_filter _ (bodyOf body)]
    cases body <;> rfl
  · have hne : ∀ name r, xs ≠ [.string name r] := fun name r hxs => hname ⟨name, r, hxs⟩
    rw [ofNode?_declaration_of_ne hne, ofNode?_declaration_of_ne hne]

/-- What a call declares, by the assignments of its body alone.  If it names a target and the
values assigned to the two fields list strings, each field holds what is left of its own
assignments.  If the tree has nothing but nodes, the call declares no target, by a fault of
the program, exactly if it does not name one or a value assigned to a field does not list
strings.  No other statement of the body matters. -/
theorem ofNode?_fields (n : String) (xs : List Node) (q : Pos) (body : Option (List Node × Pos))
    (p : Pos) :
    (∀ name r sources deps, xs = [.string name r] →
      Reads (assignmentsTo "sources" (bodyOf body)) sources →
      Reads (assignmentsTo "public_deps" (bodyOf body)) deps →
      ofNode? (declaration n xs q body p) =
        .ok ⟨name, left (sinceReset sources), left (sinceReset deps)⟩) ∧
    ((declaration n xs q body p).foreign? = none →
      ((∃ f, ofNode? (declaration n xs q body p) = .error f ∧ f.isOfProgram = true) ↔
        (¬ ∃ name r, xs = [.string name r]) ∨
          ∃ field ∈ fields, ∃ a ∈ assignmentsTo field (bodyOf body),
            ¬ ∃ values, Lists a.2 values)) ∧
    ofNode? (declaration n xs q (body.map fun b => (b.1.filter assignsField, b.2)) p) =
      ofNode? (declaration n xs q body p) := by
  refine ⟨?_, ?_, ofNode?_filter n xs q body p⟩
  · intro name r sources deps hname hs hd
    exact ofNode?_declaration_eq_ok.mpr ⟨name, r, sources, deps, hname, hs, hd, rfl⟩
  · intro hnodes
    rw [← forall_ofNode?_ne_ok_iff]
    cases h : ofNode? (declaration n xs q body p) with
    | error f => exact iff_of_true ⟨f, rfl, isOfProgram_of_declaration hnodes h⟩ nofun
    | ok t => exact iff_of_false nofun fun hne => hne t rfl

/-- A body that takes a source out and puts it in again. -/
def reinstating : List Node :=
  [.assignment (.identifier "sources" .unknown) .set
      (.list [.string "a" .unknown, .string "b" .unknown, .string "a" .unknown] .unknown) .unknown,
    .assignment (.scopeAccess "x" "sources" .unknown) .set (.list [] .unknown) .unknown,
    .assignment (.identifier "sources" .unknown) .remove
      (.list [.string "a" .unknown] .unknown) .unknown,
    .assignment (.identifier "sources" .unknown) .append
      (.list [.string "a" .unknown] .unknown) .unknown]

/-- What is put in again comes last; a scope of the field's name is not the field.  A value
that is no list is a fault, whichever operator assigns it. -/
theorem ofNode?_fields_reinstating :
    (Reads (assignmentsTo "sources" (bodyOf (some (reinstating, .unknown))))
        [(.set, ["a", "b", "a"]), (.remove, ["a"]), (.append, ["a"])] ∧
      Reads (assignmentsTo "public_deps" (bodyOf (some (reinstating, .unknown)))) [] ∧
      ofNode? (declaration "fidl" [.string "t" .unknown] .unknown
        (some (reinstating, .unknown)) .unknown) = .ok ⟨"t", ["b", "a"], []⟩) ∧
    (declaration "fidl" [.string "t" .unknown] .unknown
      (some ([.assignment (.identifier "sources" .unknown) .remove
        (.string "a" .unknown) .unknown], .unknown)) .unknown).foreign? = none ∧
    ∃ f, ofNode? (declaration "fidl" [.string "t" .unknown] .unknown
      (some ([.assignment (.identifier "sources" .unknown) .remove
        (.string "a" .unknown) .unknown], .unknown)) .unknown) = .error f ∧ f.isOfProgram = true := by
  have hlists : ∀ values : List String,
      Lists (.list (values.map (.string · .unknown)) .unknown) values := fun values =>
    stringValues?_eq_ok.mp (mapM_eq_ok.mpr (by simp [List.forall₂_map_left_iff, stringValue?]))
  have hsources : Reads (assignmentsTo "sources" (bodyOf (some (reinstating, .unknown))))
      [(.set, ["a", "b", "a"]), (.remove, ["a"]), (.append, ["a"])] :=
    .cons ⟨rfl, hlists ["a", "b", "a"]⟩ (.cons ⟨rfl, hlists ["a"]⟩
      (.cons ⟨rfl, hlists ["a"]⟩ .nil))
  refine ⟨⟨hsources, .nil, ?_⟩, rfl, ?_⟩
  · exact (ofNode?_fields _ _ _ _ _).1 "t" .unknown _ _ rfl hsources .nil
  · refine ((ofNode?_fields _ _ _ _ _).2.1 rfl).mpr (.inr ⟨"sources", by decide, _,
      List.mem_cons_self, ?_⟩)
    rintro ⟨values, xs, p, ⟨⟩, -⟩

end GnLang.Target
