import AetherArch.Fields
import AetherArch.Library.PercentEncoding

/-! # Cloud paths

Paths are checked against traversal, NUL bytes, and characters that could end a header, in the
forms they take before and after percent decoding. What decoding an accepted path can still bring
out is what the validator does not look for in encoded form.
-/

namespace AetherArch

open PercentEncoding (percentDecode toAsciiLowercase hexDigit Spells)

/-- Fullwidth full stop, solidus and reverse solidus. -/
def FULLWIDTH : List Char := ['\uFF0E', '\uFF0F', '\uFF3C']

/-- Validate a cloud storage path. -/
def validateCloudPath (path : String) : Result Unit := do
  let bytes := asBytes path
  Result.failIf (bytes = []) (.invalidCloudPath "path must not be empty")
  Result.failIf (0 ∈ bytes) (.invalidCloudPath "path must not contain null bytes")
  -- Line ends could enable header injection.
  Result.failIf (10 ∈ bytes ∨ 13 ∈ bytes)
    (.invalidCloudPath "path must not contain newline characters")
  Result.failIf (92 ∈ bytes) (.invalidCloudPath "path must not contain backslashes")
  Result.failIf (asBytes ".." <:+: bytes)
    (.invalidCloudPath "path must not contain '..' traversal sequences")
  let lower := bytes.map toAsciiLowercase
  Result.failIf
    (asBytes "%2e%2e" <:+: lower ∨ asBytes "%2e." <:+: lower ∨ asBytes ".%2e" <:+: lower)
    (.invalidCloudPath "path must not contain encoded traversal sequences")
  Result.failIf (asBytes "%252e" <:+: lower)
    (.invalidCloudPath "path must not contain double-encoded traversal sequences")
  Result.failIf (asBytes "%25" <:+: lower)
    (.invalidCloudPath "path must not contain multiply-encoded sequences")
  Result.failIf (asBytes "%2f" <:+: lower ∨ asBytes "%5c" <:+: lower)
    (.invalidCloudPath "path must not contain encoded path separators")
  Result.failIf (asBytes "%00" <:+: lower)
    (.invalidCloudPath "path must not contain encoded null bytes")
  Result.failIf (asBytes "%c0%ae" <:+: lower ∨ asBytes "%c0%af" <:+: lower)
    (.invalidCloudPath "path must not contain overlong UTF-8 encoded sequences")
  Result.failIf (path.toList.any fun c => c ∈ FULLWIDTH)
    (.invalidCloudPath ("path must not contain Unicode fullwidth characters that could be " ++
      "normalized to path separators or dots"))
  Result.failIf (bytes.head? = some 47) (.invalidCloudPath "path must not start with '/'")

/-- A validated cloud storage path. -/
structure ValidatedPath where
  path : String
  valid : validateCloudPath path = .ok ()

/-- Take a path if it is valid. -/
def ValidatedPath.new (path : String) : Result ValidatedPath :=
  match valid : validateCloudPath path with
  | .ok () => .ok ⟨path, valid⟩
  | .error error => .error error

/-- What a path is after some rounds of decoding, if that is a text. -/
def decoding (path : String) (times : Nat) : Option String :=
  fromUtf8 (percentDecode^[times] (asBytes path))

/-- Every decoding of a path that is a text is accepted. -/
def ClosedUnderDecoding (path : String) : Prop :=
  ∀ times text, decoding path times = some text → validateCloudPath text = .ok ()

/-! ## What acceptance says -/

/-- The escapes the validator refuses. -/
def REFUSED_ESCAPES : List String :=
  ["%2e%2e", "%2e.", ".%2e", "%252e", "%25", "%2f", "%5c", "%00", "%c0%ae", "%c0%af"]

/-- Free of what decoding can bring out of an accepted path: line ends, fullwidth characters and
refused escapes. -/
structure Unexposed (text : String) : Prop where
  newline : 10 ∉ asBytes text
  carriageReturn : 13 ∉ asBytes text
  halfwidth : ∀ c ∈ text.toList, c ∉ FULLWIDTH
  escapes : ∀ escape ∈ REFUSED_ESCAPES, ¬asBytes escape <:+: (asBytes text).map toAsciiLowercase

/-- Free of what the validator refuses in encoded form as well. -/
structure Contained (text : String) : Prop where
  terminated : 0 ∉ asBytes text
  forward : 92 ∉ asBytes text
  inside : ¬asBytes ".." <:+: asBytes text
  relative : (asBytes text).head? ≠ some 47

/-- **What acceptance says** of a path. -/
theorem validateCloudPath_eq_ok {path : String} :
    validateCloudPath path = .ok () ↔
      asBytes path ≠ [] ∧ Unexposed path ∧ Contained path := by
  simp only [validateCloudPath, Result.bind_eq_ok, Result.failIf_eq_ok, List.any_eq_true,
    decide_eq_true_eq]
  constructor
  · rintro ⟨_, some, _, terminated, _, lines, _, forward, _, inside, _, encoded, _, double, _,
      multiple, _, separators, _, null, _, overlong, _, fullwidth, relative⟩
    rw [not_or] at lines separators overlong
    rw [not_or, not_or] at encoded
    refine ⟨some, ⟨lines.1, lines.2, fun c member found => fullwidth ⟨c, member, found⟩, ?_⟩,
      ⟨terminated, forward, inside, relative⟩⟩
    simp only [REFUSED_ESCAPES, List.forall_mem_cons]
    exact ⟨encoded.1, encoded.2.1, encoded.2.2, double, multiple, separators.1, separators.2, null,
      overlong.1, overlong.2, fun _ member => absurd member List.not_mem_nil⟩
  · rintro ⟨some, unexposed, contained⟩
    have escapes := unexposed.escapes
    simp only [REFUSED_ESCAPES, List.forall_mem_cons] at escapes
    obtain ⟨first, second, third, double, multiple, solidus, reverse, null, overlong, longer, -⟩ :=
      escapes
    exact ⟨(), some, (), contained.terminated, (),
      not_or.mpr ⟨unexposed.newline, unexposed.carriageReturn⟩, (), contained.forward, (),
      contained.inside, (), not_or.mpr ⟨first, not_or.mpr ⟨second, third⟩⟩, (), double, (),
      multiple, (), not_or.mpr ⟨solidus, reverse⟩, (), null, (), not_or.mpr ⟨overlong, longer⟩, (),
      fun ⟨c, member, found⟩ => unexposed.halfwidth c member found, contained.relative⟩

/-! ## Decoding accepted paths -/

theorem inside_percentDecode {path : String} (unexposed : Unexposed path)
    (contained : Contained path) : ¬asBytes ".." <:+: percentDecode (asBytes path) := by
  intro dots
  rw [show asBytes ".." = [46, 46] from by decide] at dots
  obtain ⟨parts, inside, spells⟩ := PercentEncoding.spelled_infix dots
  obtain ⟨first, rest, spellsFirst, spellsRest, rfl⟩ := List.forall₂_cons_right_iff.mp spells
  obtain ⟨second, nothing, spellsSecond, none, rfl⟩ := List.forall₂_cons_right_iff.mp spellsRest
  cases none
  rw [List.flatten_cons, List.flatten_singleton] at inside
  have lower := inside.map toAsciiLowercase
  rw [List.map_append] at lower
  rcases spellsFirst.lowercase with rfl | firstEscape
  · rcases spellsSecond.lowercase with rfl | secondEscape
    · exact contained.inside inside
    · rw [secondEscape] at lower
      exact unexposed.escapes ".%2e" (by decide) lower
  · rw [firstEscape] at lower
    rcases spellsSecond.lowercase with rfl | secondEscape
    · exact unexposed.escapes "%2e." (by decide) lower
    · rw [secondEscape] at lower
      exact unexposed.escapes "%2e%2e" (by decide) lower

/-- **What decoding cannot bring out** of an accepted path. -/
theorem contained_percentDecode {path text : String} (unexposed : Unexposed path)
    (contained : Contained path) (decoded : asBytes text = percentDecode (asBytes path)) :
    Contained text where
  terminated member := by
    rw [decoded] at member
    rcases PercentEncoding.mem_percentDecode member with literal | escape
    · exact contained.terminated literal
    · exact unexposed.escapes "%00" (by decide) escape
  forward member := by
    rw [decoded] at member
    rcases PercentEncoding.mem_percentDecode member with literal | escape
    · exact contained.forward literal
    · exact unexposed.escapes "%5c" (by decide) escape
  inside := decoded ▸ inside_percentDecode unexposed contained
  relative start := by
    rw [decoded] at start
    obtain ⟨part, first, spells⟩ := PercentEncoding.spelled_head start
    rcases spells.lowercase with rfl | escape
    · obtain ⟨rest, literal⟩ := first
      exact contained.relative (literal ▸ rfl)
    · have lower := first.map toAsciiLowercase
      rw [escape] at lower
      exact unexposed.escapes "%2f" (by decide) lower.isInfix

theorem percentDecode_iterate_ne_nil {bytes : Bytes} (some : bytes ≠ []) (times : Nat) :
    percentDecode^[times] bytes ≠ [] := by
  induction times with
  | zero => exact some
  | succ times recurse =>
      rw [Function.iterate_succ_apply']
      exact PercentEncoding.percentDecode_ne_nil recurse

/-- **When validation is closed under decoding**: no round brings out a line end, a fullwidth
character or a refused escape, and where the round before was no text, nothing else either. -/
theorem closedUnderDecoding_iff (path : ValidatedPath) :
    ClosedUnderDecoding path.path ↔
      ∀ times text, decoding path.path (times + 1) = some text →
        Unexposed text ∧ (decoding path.path times = none → Contained text) := by
  constructor
  · intro closed times text decoded
    obtain ⟨-, unexposed, contained⟩ := validateCloudPath_eq_ok.mp (closed _ text decoded)
    exact ⟨unexposed, fun _ => contained⟩
  · intro quiet times
    have some := (validateCloudPath_eq_ok.mp path.valid).1
    induction times with
    | zero =>
        intro text decoded
        rw [decoding, Function.iterate_zero, id, fromUtf8_asBytes] at decoded
        cases decoded
        exact path.valid
    | succ times recurse =>
        intro text decoded
        obtain ⟨unexposed, jump⟩ := quiet times text decoded
        have bytes := asBytes_of_fromUtf8 decoded
        refine validateCloudPath_eq_ok.mpr
          ⟨bytes ▸ percentDecode_iterate_ne_nil some _, unexposed, ?_⟩
        cases before : decoding path.path times with
        | none => exact jump before
        | some previous =>
            obtain ⟨-, unexposedBefore, containedBefore⟩ :=
              validateCloudPath_eq_ok.mp (recurse previous before)
            refine contained_percentDecode unexposedBefore containedBefore ?_
            rw [bytes, Function.iterate_succ_apply', asBytes_of_fromUtf8 before]

/-- An encoded line end is accepted. -/
theorem encoded_newline_accepted :
    validateCloudPath "a%0ab" = .ok () ∧ ¬ClosedUnderDecoding "a%0ab" := by
  refine ⟨by decide +kernel, ?_⟩
  intro closed
  have decoded : decoding "a%0ab" 1 = some "a\nb" := by decide +kernel
  exact absurd (closed 1 "a\nb" decoded) (by decide +kernel)

end AetherArch
