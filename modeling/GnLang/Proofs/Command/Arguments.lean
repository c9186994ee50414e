/-
What a command line can ask for.

Whatever the words of a command line are, a format that is set is one there is, and a limit
that is set is one that can be kept: no option that takes effect breaks this, and so the
whole command line keeps it (`isValid_of_parseArguments`).
-/
import GnLang.Command.Options
import GnLang.Proofs.Except
import GnLang.Proofs.Read

namespace GnLang.Command

/-- A format that is set is one there is, and a limit that is set can be kept. -/
structure Options.IsValid (o : Options) : Prop where
  format : ∀ f, o.format = some f → f ∈ Format.names
  limit : ∀ n : Nat, o.limit = some n → IsLimit n

theorem Options.isValid_default : Options.default.IsValid :=
  ⟨by rintro _ ⟨⟩; decide, by rintro _ ⟨⟩; decide⟩

namespace Reader

variable {r r' : Reader}

/-! ### One option -/

theorem isValid_set {flag : Flag} (h : r.set flag = .ok r') (hr : r.options.IsValid) :
    r'.options.IsValid := by
  cases flag <;> cases h <;> exact ⟨hr.format, hr.limit⟩

theorem isValid_unset (hr : r.options.IsValid) (flag : Flag) : (r.unset flag).options.IsValid := by
  cases flag with
  | format => exact ⟨nofun, hr.limit⟩
  | maxDepth => exact ⟨hr.format, nofun⟩
  | _ => exact ⟨hr.format, hr.limit⟩

theorem isValid_setValue {text : String} {flag : Flag} (h : r.setValue text flag = .ok r')
    (hr : r.options.IsValid) : r'.options.IsValid := by
  unfold setValue at h
  split at h
  · cases h
    exact isValid_unset hr flag
  · cases flag with
    | format =>
      obtain ⟨hname, h⟩ | ⟨-, h⟩ := ite_eq_iff.mp h
      · cases h
        refine ⟨?_, hr.limit⟩
        rintro f ⟨⟩
        simpa using hname
      · cases h
    | maxDepth =>
      dsimp only at h
      split at h
      · rename_i limit hlimit
        cases h
        refine ⟨hr.format, ?_⟩
        rintro n ⟨⟩
        obtain ⟨hleast, hmost⟩ := readDepth_range hlimit
        exact ⟨Int.ofNat_le.mpr hleast, Int.ofNat_le.mpr hmost⟩
      · cases h
    | _ => cases h; exact ⟨hr.format, hr.limit⟩

theorem isValid_apply {value? : Option String} {pieces : List Piece}
    (h : r.apply value? pieces = .ok r') (hr : r.options.IsValid) : r'.options.IsValid := by
  induction pieces generalizing r with
  | nil =>
    cases h
    exact hr
  | cons piece pieces ih =>
    cases piece with
    | set flag =>
      obtain ⟨r₁, hset, h⟩ := bind_ok_iff.mp h
      exact ih h (isValid_set hset hr)
    | value flag text =>
      obtain ⟨r₁, hset, h⟩ := bind_ok_iff.mp h
      exact ih h (isValid_setValue hset hr)
    | wanting flag =>
      cases value? with
      | none => cases h
      | some text =>
        obtain ⟨r₁, hset, h⟩ := bind_ok_iff.mp h
        exact ih h (isValid_setValue hset hr)

/-! ### All words -/

theorem isValid_finish (hr : r.options.IsValid) (words : List Word) :
    (r.finish words).options.IsValid := by
  unfold finish
  dsimp only
  split
  · split <;> exact ⟨hr.format, hr.limit⟩
  · exact ⟨hr.format, hr.limit⟩

/-- Whatever words are taken, the options stay valid.  The induction is on the words that
are left: an option takes one or two of them. -/
theorem isValid_take {words : List Word} (h : r.take words = .ok r') (hr : r.options.IsValid) :
    r'.options.IsValid := by
  induction hn : words.length using Nat.strongRecOn generalizing r words with
  | ind n ih =>
    subst hn
    cases words with
    | nil =>
      rw [take] at h
      cases h
      exact isValid_finish hr []
    | cons word words =>
      have hrest : ∀ {r₁ : Reader}, r₁.take words = .ok r' → r₁.options.IsValid →
          r'.options.IsValid := fun h hr => ih _ (Nat.lt_succ_self _) h hr rfl
      have hoption : ∀ {pieces}, take.takeOption r pieces words = .ok r' →
          r'.options.IsValid := by
        intro pieces? h
        rw [take.takeOption.eq_def] at h
        split at h
        · cases h
        · split at h
          · rename_i text words _ _
            obtain ⟨r₁, happly, h⟩ := bind_ok_iff.mp h
            exact ih words.length (by simp only [List.length_cons]; omega) h
              (isValid_apply happly hr) rfl
          · cases h
          · obtain ⟨r₁, happly, h⟩ := bind_ok_iff.mp h
            exact hrest h (isValid_apply happly hr)
      rw [take.eq_def] at h
      dsimp only at h
      split at h
      · cases h
        exact isValid_finish hr _
      · split at h
        · split at h
          · exact hrest h ⟨hr.format, hr.limit⟩
          · exact hrest h ⟨hr.format, hr.limit⟩
        · exact hrest h ⟨hr.format, hr.limit⟩
        · exact hrest h ⟨hr.format, hr.limit⟩
        · exact hoption h
        · exact hoption h

end Reader

/-- What a command line asks for is valid. -/
theorem isValid_of_parseArguments {args : List String} {o : Options}
    (h : parseArguments args = .ok o) : o.IsValid := by
  obtain ⟨words, -, h⟩ := bind_ok_iff.mp h
  obtain ⟨r, htake, h⟩ := bind_ok_iff.mp h
  split at h
  · cases h
    exact Reader.isValid_take htake Options.isValid_default
  · cases h

end GnLang.Command
