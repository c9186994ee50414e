/-
The strings in a tree.

`Node.strings` lists what the string literals of a tree hold, and `Node.mapStrings f` changes
each of them by `f`.  Nothing else of a tree changes: its canonical text opens as many
nestings (`need_mapStrings`), and if strings that can be written stay such, so do trees
(`WellFormed.mapStrings`).
-/
import GnLang.Node.Same
import GnLang.Proofs.Tree.WellFormed

namespace GnLang

namespace Node

mutual

/-- What the string literals in the tree hold, in reading order. -/
def strings : Node → List String
  | identifier .. | integer .. | scopeAccess .. | foreign _ => []
  | string v _ => [v]
  | list xs _ => stringsAll xs
  | call _ a none _ => strings a
  | call _ a (some b) _ => strings a ++ strings b
  | arrayAccess _ i _ => strings i
  | unary _ x _ => strings x
  | binary l _ r _ => strings l ++ strings r
  | assignment t _ v _ => strings t ++ strings v
  termination_by structural x => x

/-- What the string literals in the trees hold. -/
def stringsAll : List Node → List String
  | [] => []
  | x :: xs => strings x ++ stringsAll xs
  termination_by structural xs => xs

end

mutual

/-- The tree with `f` applied to what each of its string literals holds. -/
def mapStrings (f : String → String) : Node → Node
  | identifier n p => identifier n p
  | string v p => string (f v) p
  | integer v p => integer v p
  | list xs p => list (mapStringsAll f xs) p
  | call n a none p => call n (mapStrings f a) none p
  | call n a (some b) p => call n (mapStrings f a) (some (mapStrings f b)) p
  | arrayAccess n i p => arrayAccess n (mapStrings f i) p
  | scopeAccess s n p => scopeAccess s n p
  | unary o x p => unary o (mapStrings f x) p
  | binary l o r p => binary (mapStrings f l) o (mapStrings f r) p
  | assignment t o v p => assignment (mapStrings f t) o (mapStrings f v) p
  | foreign g => foreign g
  termination_by structural x => x

/-- The trees with `f` applied to what each of their string literals holds. -/
def mapStringsAll (f : String → String) : List Node → List Node
  | [] => []
  | x :: xs => mapStrings f x :: mapStringsAll f xs
  termination_by structural xs => xs

end

/-! ### Which strings there are -/

mutual

theorem strings_placeless (x : Node) : x.placeless.strings = x.strings := by
  cases x with
  | list xs p => rw [placeless, strings, strings, stringsAll_placelessAll]
  | call n a b p =>
    cases b with
    | none => rw [placeless, strings, strings, strings_placeless]
    | some b => rw [placeless, strings, strings, strings_placeless, strings_placeless]
  | arrayAccess n i p => rw [placeless, strings, strings, strings_placeless]
  | unary o x p => rw [placeless, strings, strings, strings_placeless]
  | binary l o r p => rw [placeless, strings, strings, strings_placeless, strings_placeless]
  | assignment t o v p => rw [placeless, strings, strings, strings_placeless, strings_placeless]
  | foreign g => cases g <;> rfl
  | _ => rfl
  termination_by structural x

theorem stringsAll_placelessAll (xs : List Node) :
    stringsAll (placelessAll xs) = stringsAll xs := by
  cases xs with
  | nil => rfl
  | cons x xs =>
    rw [placelessAll, stringsAll, stringsAll, strings_placeless, stringsAll_placelessAll]
  termination_by structural xs

end

mutual

theorem strings_mapStrings (f : String → String) (x : Node) :
    (x.mapStrings f).strings = x.strings.map f := by
  cases x with
  | list xs p => rw [mapStrings, strings, strings, stringsAll_mapStringsAll]
  | call n a b p =>
    cases b with
    | none => rw [mapStrings, strings, strings, strings_mapStrings]
    | some b =>
      rw [mapStrings, strings, strings, List.map_append, strings_mapStrings, strings_mapStrings]
  | arrayAccess n i p => rw [mapStrings, strings, strings, strings_mapStrings]
  | unary o x p => rw [mapStrings, strings, strings, strings_mapStrings]
  | binary l o r p | assignment l o r p =>
    rw [mapStrings, strings, strings, List.map_append, strings_mapStrings, strings_mapStrings]
  | _ => rfl
  termination_by structural x

theorem stringsAll_mapStringsAll (f : String → String) (xs : List Node) :
    stringsAll (mapStringsAll f xs) = (stringsAll xs).map f := by
  cases xs with
  | nil => rfl
  | cons x xs =>
    rw [mapStringsAll, stringsAll, stringsAll, List.map_append, strings_mapStrings,
      stringsAll_mapStringsAll]
  termination_by structural xs

end

mutual

/-- A tree stays as it is if its strings do. -/
theorem mapStrings_eq_self {f : String → String} {x : Node} (h : ∀ v ∈ x.strings, f v = v) :
    x.mapStrings f = x := by
  cases x with
  | string v p => rw [mapStrings, h v List.mem_cons_self]
  | list xs p => rw [mapStrings, mapStringsAll_eq_self h]
  | call n a b p =>
    cases b with
    | none => rw [mapStrings, mapStrings_eq_self (x := a) h]
    | some b =>
      obtain ⟨ha, hb⟩ := List.forall_mem_append.mp h
      rw [mapStrings, mapStrings_eq_self ha, mapStrings_eq_self hb]
  | arrayAccess n i p => rw [mapStrings, mapStrings_eq_self (x := i) h]
  | unary o x p => rw [mapStrings, mapStrings_eq_self (x := x) h]
  | binary l o r p | assignment l o r p =>
    obtain ⟨hl, hr⟩ := List.forall_mem_append.mp h
    rw [mapStrings, mapStrings_eq_self hl, mapStrings_eq_self hr]
  | _ => rfl
  termination_by structural x

theorem mapStringsAll_eq_self {f : String → String} {xs : List Node}
    (h : ∀ v ∈ stringsAll xs, f v = v) : mapStringsAll f xs = xs := by
  cases xs with
  | nil => rfl
  | cons x xs =>
    obtain ⟨hx, hxs⟩ := List.forall_mem_append.mp h
    rw [mapStringsAll, mapStrings_eq_self hx, mapStringsAll_eq_self hxs]
  termination_by structural xs

end

/-- A tree is the same with its strings changed exactly if none of them does change. -/
theorem placeless_mapStrings_eq_iff {f : String → String} {x : Node} :
    (x.mapStrings f).placeless = x.placeless ↔ ∀ v ∈ x.strings, f v = v := by
  constructor
  · intro h
    have hmap := congrArg strings h
    rw [strings_placeless, strings_placeless, strings_mapStrings] at hmap
    exact List.map_eq_map_iff.mp (hmap.trans (List.map_id _).symm)
  · intro h
    rw [mapStrings_eq_self h]

theorem forall_mem_mapStringsAll {f : String → String} {xs : List Node} {P : Node → Prop} :
    (∀ y ∈ mapStringsAll f xs, P y) ↔ ∀ x ∈ xs, P (x.mapStrings f) := by
  induction xs with
  | nil => simp [mapStringsAll]
  | cons x xs ih => rw [mapStringsAll, List.forall_mem_cons, ih, List.forall_mem_cons]

theorem isTarget_mapStrings (f : String → String) (x : Node) :
    (x.mapStrings f).isTarget = x.isTarget := by
  cases x with
  | call n a b p => cases b <;> rfl
  | _ => rfl

theorem typeName_mapStrings (f : String → String) (x : Node) :
    (x.mapStrings f).typeName = x.typeName := by
  cases x with
  | call n a b p => cases b <;> rfl
  | _ => rfl

theorem pos_mapStrings (f : String → String) (x : Node) : (x.mapStrings f).pos = x.pos := by
  cases x with
  | call n a b p => cases b <;> rfl
  | _ => rfl

end Node

/-! ### Trees that can be written -/

theorem Format.isBinary_mapStrings (f : String → String) (x : Node) :
    isBinary (x.mapStrings f) = isBinary x := by
  cases x with
  | call n a b p => cases b <;> rfl
  | _ => rfl

mutual

/-- The canonical text opens as many nestings, whatever the strings are. -/
theorem need_mapStrings (f : String → String) (x : Node) : need (x.mapStrings f) = need x := by
  cases x with
  | list xs p => rw [Node.mapStrings, need, need, needs_mapStringsAll]
  | call n a b p =>
    cases b with
    | none => rw [Node.mapStrings, need, need, need_mapStrings]
    | some b => rw [Node.mapStrings, need, need, need_mapStrings, need_mapStrings]
  | arrayAccess n i p => rw [Node.mapStrings, need, need, need_mapStrings]
  | unary o x p =>
    rw [Node.mapStrings, need, need, need_mapStrings, parentheses, parentheses,
      Format.isBinary_mapStrings]
  | binary l o r p =>
    rw [Node.mapStrings, need, need, need_mapStrings, need_mapStrings, parentheses, parentheses,
      Format.isBinary_mapStrings]
  | assignment t o v p => rw [Node.mapStrings, need, need, need_mapStrings, need_mapStrings]
  | _ => rfl
  termination_by structural x

theorem needs_mapStringsAll (f : String → String) (xs : List Node) :
    needs (Node.mapStringsAll f xs) = needs xs := by
  cases xs with
  | nil => rfl
  | cons x xs => rw [Node.mapStringsAll, needs, needs, need_mapStrings, needs_mapStringsAll]
  termination_by structural xs

end

theorem WellFormed.mapStrings {f : String → String} {r : Role} {x : Node}
    (hf : ∀ v, Text.IsQuotable v → Text.IsQuotable (f v)) (h : WellFormed r x) :
    WellFormed r (x.mapStrings f) := by
  have hall : ∀ {r xs}, (∀ x ∈ xs, WellFormed r (x.mapStrings f)) →
      ∀ y ∈ Node.mapStringsAll f xs, WellFormed r y := Node.forall_mem_mapStringsAll.mpr
  induction h with
  | identifier hn => exact .identifier hn
  | string hv => exact .string (hf _ hv)
  | integer hv => exact .integer hv
  | list _ ih => exact .list (hall ih)
  | call hn _ ih => exact .call hn (hall ih)
  | bodyCall hn _ _ ihxs ihys => exact .bodyCall hn (hall ihxs) (hall ihys)
  | arrayAccess hn _ ih => exact .arrayAccess hn ih
  | scopeAccess hn hm => exact .scopeAccess hn hm
  | unary _ ih => exact .unary ih
  | binary _ _ ihl ihr => exact .binary ihl ihr
  | @callStatement n a b p _ ih =>
    cases b with
    | none => exact .callStatement ih
    | some b => exact .callStatement ih
  | assignment _ ht _ iht ihv =>
    exact .assignment iht (by rw [Node.isTarget_mapStrings, ht]) ihv

end GnLang
