/-
Trees and their records.

The record of a tree of nodes says all there is to say about it: trees with the same record
are the same tree, places included (`toJson_inj`).  In no record does an object have two
fields of one name (`distinctKeys_toJson`), so nothing is lost where the fields of an object
are looked up by their names.  How many arrays and objects a record has inside one another
depends on its parts only (`height_record`).
-/
import GnLang.Node.Foreign
import GnLang.Node.Record

namespace GnLang

namespace Json

/-- No object in the value has two fields of one name. -/
inductive DistinctKeys : Json → Prop where
  | null : DistinctKeys .null
  | int (v : Int) : DistinctKeys (.int v)
  | str (s : String) : DistinctKeys (.str s)
  | arr {vs : List Json} : (∀ v ∈ vs, DistinctKeys v) → DistinctKeys (.arr vs)
  | obj {fs : List (String × Json)} :
      (fs.map Prod.fst).Nodup → (∀ f ∈ fs, DistinctKeys f.2) → DistinctKeys (.obj fs)

attribute [simp] DistinctKeys.null DistinctKeys.int DistinctKeys.str

attribute [simp] height heightItems heightFields

theorem heightFields_append (fs gs : List (String × Json)) :
    heightFields (fs ++ gs) = max (heightFields fs) (heightFields gs) := by
  induction fs with
  | nil => exact (Nat.zero_max _).symm
  | cons f fs ih =>
    obtain ⟨key, v⟩ := f
    rw [List.cons_append, heightFields, heightFields, ih, Nat.max_assoc]

end Json

/-- Operators that can be found by their texts have texts of their own. -/
theorem eq_of_text_eq {α : Type} {text : α → String} {ofText? : String → Option α}
    (hfind : ∀ o, ofText? (text o) = some o) {o o' : α} (h : text o = text o') : o = o' :=
  Option.some.inj (by rw [← hfind, h, hfind])

namespace Node

open Json (DistinctKeys)

/-! ### One object -/

@[simp] theorem record_inj {k k' : String} {ps ps' : List (String × Json)} {p q : Pos} :
    record k ps p = record k' ps' q ↔ k = k' ∧ ps = ps' ∧ p = q := by
  constructor
  · intro h
    obtain ⟨hhead, hplace⟩ := List.append_inj' (Json.obj.inj h) rfl
    obtain ⟨line, col⟩ := p
    obtain ⟨line', col'⟩ := q
    simp only [List.cons.injEq, Prod.mk.injEq, Json.str.injEq, Json.int.injEq, true_and,
      and_true] at hhead hplace
    obtain ⟨rfl, rfl⟩ := hhead
    obtain ⟨rfl, rfl⟩ := hplace
    exact ⟨rfl, rfl, rfl⟩
  · rintro ⟨rfl, rfl, rfl⟩
    rfl

section

variable {k a b c : String} {u v w u' v' w' : Json} {p q : Pos}

theorem record_inj_one : record k [(a, u)] p = record k [(a, u')] q ↔ u = u' ∧ p = q := by
  simp

theorem record_inj_two :
    record k [(a, u), (b, v)] p = record k [(a, u'), (b, v')] q ↔
      u = u' ∧ v = v' ∧ p = q := by
  simp [and_assoc]

theorem record_inj_three :
    record k [(a, u), (b, v), (c, w)] p = record k [(a, u'), (b, v'), (c, w')] q ↔
      u = u' ∧ v = v' ∧ w = w' ∧ p = q := by
  simp [and_assoc]

end

@[simp] theorem record_ne_null {k : String} {ps : List (String × Json)} {p : Pos} :
    record k ps p ≠ .null := by
  rw [record]
  exact Json.noConfusion

theorem height_record (k : String) (ps : List (String × Json)) (p : Pos) :
    (record k ps p).height = 1 + Json.heightFields ps := by
  rw [record, Json.height, Json.heightFields_append]
  simp

theorem distinctKeys_record {k : String} {ps : List (String × Json)} {p : Pos}
    (hkeys : ("kind" :: ps.map Prod.fst ++ ["line", "col"]).Nodup)
    (hps : ∀ f ∈ ps, DistinctKeys f.2) : DistinctKeys (record k ps p) := by
  refine .obj (by simpa using hkeys) ?_
  rw [List.forall_mem_append, List.forall_mem_cons, List.forall_mem_cons,
    List.forall_mem_singleton]
  exact ⟨⟨.str k, hps⟩, .int _, .int _⟩

/-! ### Every tree -/

mutual

theorem distinctKeys_toJson (x : Node) : DistinctKeys x.toJson := by
  cases x with
  | identifier n p | string n p | integer v p | scopeAccess s n p =>
    exact distinctKeys_record (by simp) (by simp)
  | list xs p =>
    have hxs := DistinctKeys.arr (distinctKeys_toJsonAll xs)
    exact distinctKeys_record (by simp) (by simp [hxs])
  | call n a b p =>
    cases b with
    | none => exact distinctKeys_record (by simp) (by simp [distinctKeys_toJson a])
    | some b =>
      exact distinctKeys_record (by simp) (by simp [distinctKeys_toJson a, distinctKeys_toJson b])
  | arrayAccess n i p => exact distinctKeys_record (by simp) (by simp [distinctKeys_toJson i])
  | unary o x p => exact distinctKeys_record (by simp) (by simp [distinctKeys_toJson x])
  | binary l o r p =>
    exact distinctKeys_record (by simp) (by simp [distinctKeys_toJson l, distinctKeys_toJson r])
  | assignment t o v p =>
    exact distinctKeys_record (by simp) (by simp [distinctKeys_toJson t, distinctKeys_toJson v])
  | foreign f => exact .null
  termination_by structural x

theorem distinctKeys_toJsonAll (xs : List Node) : ∀ v ∈ toJsonAll xs, DistinctKeys v := by
  cases xs with
  | nil => exact fun _ hv => by cases hv
  | cons x xs =>
    rw [toJsonAll, List.forall_mem_cons]
    exact ⟨distinctKeys_toJson x, distinctKeys_toJsonAll xs⟩
  termination_by structural xs

end

theorem toJson_ne_null {x : Node} (hx : x.foreign? = none) : x.toJson ≠ .null := by
  intro h
  cases x with
  | foreign f => cases hx
  | call n a b p => cases b <;> cases h
  | _ => cases h

@[simp] theorem toJson_call (n : String) (a : Node) (b : Option Node) (p : Pos) :
    toJson (call n a b p) = record "call"
      [("name", .str n), ("args", toJson a), ("body", (b.map toJson).getD .null)] p := by
  cases b <;> rfl

theorem foreign?_call {n : String} {a : Node} {b : Option Node} {p : Pos}
    (h : (call n a b p).foreign? = none) :
    a.foreign? = none ∧ ∀ x, b = some x → x.foreign? = none := by
  cases b with
  | none => exact ⟨h, fun _ hx => by cases hx⟩
  | some b =>
    obtain ⟨ha, hb⟩ := Option.or_eq_none_iff.mp h
    exact ⟨ha, fun x hx => Option.some.inj hx ▸ hb⟩

mutual

/-- A record is that of one tree. -/
theorem toJson_inj {x y : Node} (hx : x.foreign? = none) (hy : y.foreign? = none)
    (h : x.toJson = y.toJson) : x = y := by
  cases x with
  | identifier n p =>
    cases y with
    | identifier m q =>
      obtain ⟨hn, rfl⟩ := record_inj_one.mp h
      rw [Json.str.inj hn]
    | _ => simp [toJson] at h
  | string v p =>
    cases y with
    | string w q =>
      obtain ⟨hv, rfl⟩ := record_inj_one.mp h
      rw [Json.str.inj hv]
    | _ => simp [toJson] at h
  | integer v p =>
    cases y with
    | integer w q =>
      obtain ⟨hv, rfl⟩ := record_inj_one.mp h
      rw [Json.int.inj hv]
    | _ => simp [toJson] at h
  | list xs p =>
    cases y with
    | list ys q =>
      obtain ⟨hxs, rfl⟩ := record_inj_one.mp h
      rw [toJsonAll_inj hx hy (Json.arr.inj hxs)]
    | _ => simp [toJson] at h
  | call n a b p =>
    cases y with
    | call m c d q =>
      obtain ⟨ha, hb⟩ := foreign?_call hx
      obtain ⟨hc, hd⟩ := foreign?_call hy
      rw [toJson_call, toJson_call] at h
      obtain ⟨hn, hac, hbd, rfl⟩ := record_inj_three.mp h
      rw [Json.str.inj hn, toJson_inj ha hc hac]
      cases b with
      | none =>
        cases d with
        | none => rfl
        | some d => exact absurd hbd.symm (toJson_ne_null (hd d rfl))
      | some b =>
        cases d with
        | none => exact absurd hbd (toJson_ne_null (hb b rfl))
        | some d => rw [toJson_inj (hb b rfl) (hd d rfl) hbd]
    | _ => simp [toJson] at h
  | arrayAccess n i p =>
    cases y with
    | arrayAccess m j q =>
      obtain ⟨hn, hi, rfl⟩ := record_inj_two.mp h
      have hij : i = j := toJson_inj hx hy hi
      rw [Json.str.inj hn, hij]
    | _ => simp [toJson] at h
  | scopeAccess s n p =>
    cases y with
    | scopeAccess t m q =>
      obtain ⟨hs, hn, rfl⟩ := record_inj_two.mp h
      rw [Json.str.inj hs, Json.str.inj hn]
    | _ => simp [toJson] at h
  | unary o x p =>
    cases y with
    | unary o' y q =>
      obtain ⟨ho, hxy, rfl⟩ := record_inj_two.mp h
      have hop : o = o' := eq_of_text_eq UnaryOp.ofText?_text (Json.str.inj ho)
      have hxy : x = y := toJson_inj hx hy hxy
      rw [hop, hxy]
    | _ => simp [toJson] at h
  | binary l o r p =>
    cases y with
    | binary l' o' r' q =>
      obtain ⟨hl, hr⟩ := Option.or_eq_none_iff.mp hx
      obtain ⟨hl', hr'⟩ := Option.or_eq_none_iff.mp hy
      obtain ⟨hll, ho, hrr, rfl⟩ := record_inj_three.mp h
      have hop : o = o' := eq_of_text_eq BinaryOp.ofText?_text (Json.str.inj ho)
      rw [toJson_inj hl hl' hll, hop, toJson_inj hr hr' hrr]
    | _ => simp [toJson] at h
  | assignment t o v p =>
    cases y with
    | assignment t' o' v' q =>
      obtain ⟨ht, hv⟩ := Option.or_eq_none_iff.mp hx
      obtain ⟨ht', hv'⟩ := Option.or_eq_none_iff.mp hy
      obtain ⟨htt, ho, hvv, rfl⟩ := record_inj_three.mp h
      have hop : o = o' := eq_of_text_eq AssignOp.ofText?_text (Json.str.inj ho)
      rw [toJson_inj ht ht' htt, hop, toJson_inj hv hv' hvv]
    | _ => simp [toJson] at h
  | foreign f => cases hx
  termination_by structural x

theorem toJsonAll_inj {xs ys : List Node} (hxs : foreignIn? xs = none)
    (hys : foreignIn? ys = none) (h : toJsonAll xs = toJsonAll ys) : xs = ys := by
  cases xs with
  | nil =>
    cases ys with
    | nil => rfl
    | cons y ys => cases h
  | cons x xs =>
    cases ys with
    | nil => cases h
    | cons y ys =>
      obtain ⟨hx, hxs⟩ := Option.or_eq_none_iff.mp hxs
      obtain ⟨hy, hys⟩ := Option.or_eq_none_iff.mp hys
      obtain ⟨hhead, htail⟩ := List.cons.inj h
      rw [toJson_inj hx hy hhead, toJsonAll_inj hxs hys htail]
  termination_by structural xs

end

theorem toJsonAll_eq_map (xs : List Node) : toJsonAll xs = xs.map toJson := by
  induction xs with
  | nil => rfl
  | cons x xs ih => rw [toJsonAll, ih, List.map_cons]

end Node

end GnLang
