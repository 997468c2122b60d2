import AetherArch.Cloud.Path
import AetherArch.Library.Separator
import AetherArch.Library.Utf8

/-! # Cloud URLs

A URL is taken apart into scheme, bucket and key, with the rules for cloud paths written out once
more. They are asked of the whole URL where they speak of escapes, and of the key where they speak
of literal characters; the one that is left out is that a key does not start with `/`.
-/

namespace AetherArch

open PercentEncoding (toAsciiLowercase)

/-- The schemes of the supported backends. -/
def SCHEMES : List String := ["s3", "gs", "az"]

/-- A character of a bucket name. -/
def isBucketChar (c : Char) : Bool := c.isLower || c.isDigit || c = '-' || c = '.' || c = '_'

/-- Parse a cloud URL into scheme, bucket and key. -/
def parseCloudUrl (url : String) : Result (String × String × String) := do
  let bytes := asBytes url
  Result.failIf (0 ∈ bytes) (.invalidCloudUrl "URL must not contain null bytes")
  Result.failIf (10 ∈ bytes ∨ 13 ∈ bytes)
    (.invalidCloudUrl "URL must not contain newline characters")
  match Separator.splitOnce "://".toList url.toList with
  | none => .error (.invalidCloudUrl "missing '://' separator")
  | some (scheme, rest) =>
      match Separator.splitOnce "/".toList rest with
      | none => .error (.invalidCloudUrl "missing key after bucket")
      | some (bucketChars, keyChars) => do
          let bucket := String.ofList bucketChars
          let key := String.ofList keyChars
          Result.failIf (asBytes bucket = []) (.invalidCloudUrl "bucket name must not be empty")
          Result.failIf (asBytes key = []) (.invalidCloudUrl "object key must not be empty")
          Result.failIf (asBytes ".." <:+: asBytes key)
            (.invalidCloudUrl "URL key must not contain '..' traversal sequences")
          Result.failIf ((asBytes bucket).length < 3 ∨ (asBytes bucket).length > 63)
            (.invalidCloudUrl "bucket name must be 3-63 characters")
          Result.failIf (¬bucketChars.all isBucketChar)
            (.invalidCloudUrl ("bucket name must contain only lowercase letters, digits, " ++
              "hyphens, dots, and underscores"))
          let lower := bytes.map toAsciiLowercase
          Result.failIf
            (asBytes "%2e%2e" <:+: lower ∨ asBytes "%2e." <:+: lower ∨ asBytes ".%2e" <:+: lower)
            (.invalidCloudUrl "URL contains encoded traversal sequence")
          Result.failIf (asBytes "%252e" <:+: lower)
            (.invalidCloudUrl "URL contains double-encoded traversal sequence")
          Result.failIf (asBytes "%2f" <:+: lower ∨ asBytes "%5c" <:+: lower)
            (.invalidCloudUrl "URL contains encoded path separator")
          Result.failIf (asBytes "%00" <:+: lower)
            (.invalidCloudUrl "URL contains encoded null byte")
          Result.failIf (asBytes "%25" <:+: lower)
            (.invalidCloudUrl "URL contains multiply-encoded sequences")
          Result.failIf (92 ∈ asBytes key)
            (.invalidCloudUrl "URL key must not contain backslashes")
          Result.failIf (asBytes "%c0%ae" <:+: lower ∨ asBytes "%c0%af" <:+: lower)
            (.invalidCloudUrl "URL contains overlong UTF-8 encoded sequences")
          Result.failIf (url.toList.any fun c => c ∈ FULLWIDTH)
            (.invalidCloudUrl
              "URL contains Unicode fullwidth characters that could be normalized")
          if String.ofList scheme ∈ SCHEMES then .ok (String.ofList scheme, bucket, key)
          else .error (.invalidCloudUrl s!"unsupported scheme '{String.ofList scheme}'")

/-- The URL of a key in a bucket. -/
def cloudUrl (scheme bucket key : String) : String := scheme ++ "://" ++ bucket ++ "/" ++ key

/-- A bucket name that the rules for URLs admit. -/
structure AdmittedBucket (bucket : String) : Prop where
  long : 3 ≤ (asBytes bucket).length
  short : (asBytes bucket).length ≤ 63
  characters : bucket.toList.all isBucketChar

/-- What both validators ask of a key. -/
structure Harmless (key : String) : Prop where
  some : asBytes key ≠ []
  unexposed : Unexposed key
  terminated : 0 ∉ asBytes key
  forward : 92 ∉ asBytes key
  inside : ¬asBytes ".." <:+: asBytes key

/-- What a valid path is. -/
theorem validateCloudPath_iff {key : String} :
    validateCloudPath key = .ok () ↔ Harmless key ∧ (asBytes key).head? ≠ some 47 := by
  rw [validateCloudPath_eq_ok]
  constructor
  · rintro ⟨some, unexposed, contained⟩
    exact ⟨⟨some, unexposed, contained.terminated, contained.forward, contained.inside⟩,
      contained.relative⟩
  · rintro ⟨harmless, relative⟩
    exact ⟨harmless.some, harmless.unexposed, harmless.terminated, harmless.forward,
      harmless.inside, relative⟩

/-! ## In front of the key -/

/-- The characters that scheme, bucket and their separators are made of. -/
def PlainChar (c : Char) : Prop := 45 ≤ c.toNat ∧ c.toNat ≤ 122

/-- Every admitted bucket character is a plain one. -/
theorem plainChar_of_isBucketChar {c : Char} (admitted : isBucketChar c = true) :
    PlainChar c := by
  have zero : (48 : UInt32).toNat = 48 := rfl
  simp only [isBucketChar, Bool.or_eq_true, decide_eq_true_eq] at admitted
  rcases admitted with (((lower | digit) | rfl) | rfl) | rfl
  · unfold Char.isLower at lower
    simp only [Bool.and_eq_true, decide_eq_true_eq, ge_iff_le, UInt32.le_iff_toNat_le] at lower
    exact ⟨le_trans (by decide) lower.1, lower.2⟩
  · simp only [Char.isDigit, Bool.and_eq_true, decide_eq_true_eq, ge_iff_le,
      UInt32.le_iff_toNat_le] at digit
    exact ⟨le_trans (by decide) digit.1, digit.2.trans (by decide)⟩
  · exact ⟨by decide, by decide⟩
  · exact ⟨by decide, by decide⟩
  · exact ⟨by decide, by decide⟩

/-- The bytes of a joined text. -/
theorem asBytes_append (first second : String) :
    asBytes (first ++ second) = asBytes first ++ asBytes second := by
  rw [asBytes_eq_encode, String.toList_append, Utf8.encode_append, ← asBytes_eq_encode,
    ← asBytes_eq_encode]

/-- The bytes of plain characters are their codes. -/
theorem plain_of_mem {text : String} (plain : ∀ c ∈ text.toList, PlainChar c) {byte : UInt8}
    (member : byte ∈ asBytes text) : 45 ≤ byte.toNat ∧ byte.toNat ≤ 122 := by
  rw [asBytes_eq_encode] at member
  have ascii (c : Char) (inside : c ∈ text.toList) : c.toNat < 128 :=
    (plain c inside).2.trans_lt (by decide)
  obtain ⟨c, inside, code⟩ := Utf8.mem_encode ascii member
  rw [code]
  exact plain c inside

section

variable {scheme bucket key : String}

/-- Scheme, bucket and the separator between them are plain. -/
theorem plain_front (supported : scheme ∈ SCHEMES) (admitted : AdmittedBucket bucket) :
    ∀ c ∈ (scheme ++ "://" ++ bucket).toList, PlainChar c := by
  intro c member
  rw [String.toList_append, List.mem_append] at member
  rcases member with fixed | own
  · have plain : SCHEMES.all fun scheme => (scheme ++ "://").toList.all fun c =>
        45 ≤ c.toNat ∧ c.toNat ≤ 122 := by decide
    change 45 ≤ c.toNat ∧ c.toNat ≤ 122
    exact of_decide_eq_true
      (List.all_eq_true.mp (List.all_eq_true.mp plain scheme supported) c fixed)
  · exact plainChar_of_isBucketChar (List.all_eq_true.mp admitted.characters c own)

/-- The bytes of a URL. -/
theorem asBytes_cloudUrl (scheme bucket key : String) :
    asBytes (cloudUrl scheme bucket key) =
      asBytes (scheme ++ "://" ++ bucket) ++ 47 :: asBytes key := by
  unfold cloudUrl
  rw [asBytes_append, asBytes_append, List.append_assoc]
  rfl

/-- Only the key adds bytes below 45. -/
theorem mem_cloudUrl (supported : scheme ∈ SCHEMES) (admitted : AdmittedBucket bucket)
    {byte : UInt8} (other : byte.toNat < 45) :
    byte ∈ asBytes (cloudUrl scheme bucket key) ↔ byte ∈ asBytes key := by
  rw [asBytes_cloudUrl, List.mem_append, List.mem_cons]
  constructor
  · rintro (front | rfl | inside)
    · have := (plain_of_mem (plain_front supported admitted) front).1
      omega
    · exact absurd other (by decide)
    · exact inside
  · intro inside
    exact .inr (.inr inside)

/-- **An escape in a URL is an escape in its key**: none is in front of the key, and none contains
the separator. -/
theorem escape_cloudUrl (supported : scheme ∈ SCHEMES) (admitted : AdmittedBucket bucket)
    {escape : String} (sign : 37 ∈ asBytes escape) (apart : 47 ∉ asBytes escape) :
    asBytes escape <:+: (asBytes (cloudUrl scheme bucket key)).map toAsciiLowercase ↔
      asBytes escape <:+: (asBytes key).map toAsciiLowercase := by
  rw [asBytes_cloudUrl, List.map_append, List.map_cons]
  refine (Separator.isInfix_around apart _ _).trans (or_iff_right ?_)
  intro inside
  obtain ⟨byte, member, lower⟩ := List.mem_map.mp (inside.subset sign)
  have plain := plain_of_mem (plain_front supported admitted) member
  have code := congrArg UInt8.toNat lower
  unfold toAsciiLowercase at code
  split at code
  · rw [Utf8.toNat_ofNat (by omega)] at code
    change _ = 37 at code
    omega
  · change _ = 37 at code
    omega

/-- Only the key adds full-width characters. -/
theorem fullwidth_cloudUrl (supported : scheme ∈ SCHEMES) (admitted : AdmittedBucket bucket) :
    ((cloudUrl scheme bucket key).toList.any fun c => c ∈ FULLWIDTH) =
      key.toList.any fun c => c ∈ FULLWIDTH := by
  have front : ((scheme ++ "://" ++ bucket).toList.any fun c => c ∈ FULLWIDTH) = false := by
    apply List.any_eq_false.mpr
    intro c member
    have plain := plain_front supported admitted c member
    intro wide
    have large : FULLWIDTH.all fun c => 122 < c.toNat := by decide
    have high := of_decide_eq_true (List.all_eq_true.mp large c (of_decide_eq_true wide))
    exact absurd plain.2 (Nat.not_le_of_lt high)
  unfold cloudUrl
  rw [String.toList_append, String.toList_append, List.any_append, List.any_append, front]
  rfl

/-! ## What the parser accepts -/

/-- The scheme is split off. -/
theorem splitOnce_scheme (supported : scheme ∈ SCHEMES) :
    Separator.splitOnce "://".toList (cloudUrl scheme bucket key).toList =
      some (scheme.toList, bucket.toList ++ ("/".toList ++ key.toList)) := by
  have apart : ∀ scheme ∈ SCHEMES, ':' ∉ scheme.toList := by decide
  unfold cloudUrl
  rw [String.toList_append, String.toList_append, String.toList_append, String.toList_append,
    List.append_assoc, List.append_assoc, List.append_assoc]
  exact Separator.splitOnce_append (apart scheme supported) _

/-- The bucket is split off. -/
theorem splitOnce_bucket (admitted : AdmittedBucket bucket) :
    Separator.splitOnce "/".toList (bucket.toList ++ ("/".toList ++ key.toList)) =
      some (bucket.toList, key.toList) := by
  have apart : '/' ∉ bucket.toList := by
    intro member
    exact absurd (List.all_eq_true.mp admitted.characters '/' member) (by decide)
  exact Separator.splitOnce_append apart _

/-- **The parser accepts harmless keys**, wherever they begin, and returns the parts of the URL. -/
theorem parseCloudUrl_eq_ok (supported : scheme ∈ SCHEMES) (admitted : AdmittedBucket bucket)
    {found : String × String × String} :
    parseCloudUrl (cloudUrl scheme bucket key) = .ok found ↔
      Harmless key ∧ (scheme, bucket, key) = found := by
  have named : asBytes bucket ≠ [] := by
    intro empty
    have long := admitted.long
    rw [empty] at long
    exact absurd long (by decide)
  have sized : ¬((asBytes bucket).length < 3 ∨ (asBytes bucket).length > 63) :=
    not_or.mpr ⟨Nat.not_lt_of_le admitted.long, Nat.not_lt_of_le admitted.short⟩
  have spelled : ∀ escape ∈ REFUSED_ESCAPES, 37 ∈ asBytes escape ∧ 47 ∉ asBytes escape := by
    decide
  have moved : ∀ escape ∈ REFUSED_ESCAPES,
      (asBytes escape <:+: (asBytes (cloudUrl scheme bucket key)).map toAsciiLowercase ↔
        asBytes escape <:+: (asBytes key).map toAsciiLowercase) := fun escape refused =>
    escape_cloudUrl supported admitted (spelled escape refused).1 (spelled escape refused).2
  simp only [REFUSED_ESCAPES, List.forall_mem_cons] at moved
  obtain ⟨first, second, third, double, multiple, solidus, reverse, null, overlong, longer, -⟩ :=
    moved
  unfold parseCloudUrl
  rw [splitOnce_scheme supported]
  dsimp only
  rw [splitOnce_bucket admitted]
  simp only [String.ofList_toList, if_pos supported, Result.bind_eq_ok, Result.failIf_eq_ok,
    mem_cloudUrl supported admitted (show (0 : UInt8).toNat < 45 by decide),
    mem_cloudUrl supported admitted (show (10 : UInt8).toNat < 45 by decide),
    mem_cloudUrl supported admitted (show (13 : UInt8).toNat < 45 by decide),
    fullwidth_cloudUrl supported admitted, named, sized, admitted.characters, first, second,
    third, double, multiple, solidus, reverse, null, overlong, longer, Except.ok.injEq,
    List.any_eq_true, decide_eq_true_eq]
  constructor
  · rintro ⟨_, terminated, _, lines, _, -, _, some, _, inside, _, -, _, -, _, encoded, _, double,
      _, separators, _, null, _, multiple, _, forward, _, overlong, _, narrow, same⟩
    rw [not_or] at lines separators overlong
    rw [not_or, not_or] at encoded
    refine ⟨⟨some, ⟨lines.1, lines.2, fun c member wide => narrow ⟨c, member, wide⟩, ?_⟩,
      terminated, forward, inside⟩, same⟩
    simp only [REFUSED_ESCAPES, List.forall_mem_cons]
    exact ⟨encoded.1, encoded.2.1, encoded.2.2, double, multiple, separators.1, separators.2, null,
      overlong.1, overlong.2, fun _ member => absurd member List.not_mem_nil⟩
  · rintro ⟨harmless, same⟩
    have escapes := harmless.unexposed.escapes
    simp only [REFUSED_ESCAPES, List.forall_mem_cons] at escapes
    obtain ⟨first, second, third, double, multiple, solidus, reverse, null, overlong, longer, -⟩ :=
      escapes
    exact ⟨(), harmless.terminated, (),
      not_or.mpr ⟨harmless.unexposed.newline, harmless.unexposed.carriageReturn⟩, (), not_false,
      (), harmless.some, (), harmless.inside, (), not_false, (), not_not.mpr trivial, (),
      not_or.mpr ⟨first, not_or.mpr ⟨second, third⟩⟩, (), double, (),
      not_or.mpr ⟨solidus, reverse⟩, (), null, (), multiple, (), harmless.forward, (),
      not_or.mpr ⟨overlong, longer⟩, (),
      fun exposed => exposed.elim fun c found =>
        harmless.unexposed.halfwidth c found.1 found.2, same⟩

end

/-- The two validators agree on a key in a bucket, and the parser returns what was asked for. -/
def ValidatorsAgree (scheme bucket key : String) : Prop :=
  ((∃ found, parseCloudUrl (cloudUrl scheme bucket key) = .ok found) ↔
      validateCloudPath key = .ok ()) ∧
    ∀ found, parseCloudUrl (cloudUrl scheme bucket key) = .ok found → found = (scheme, bucket, key)

/-- **When the validators agree**: unless the key starts with `/` and nothing else is wrong with
it. -/
theorem validators_agree_iff {scheme bucket key : String} (supported : scheme ∈ SCHEMES)
    (admitted : AdmittedBucket bucket) :
    ValidatorsAgree scheme bucket key ↔ ((asBytes key).head? = some 47 → ¬Harmless key) := by
  unfold ValidatorsAgree
  simp only [parseCloudUrl_eq_ok supported admitted, validateCloudPath_iff]
  constructor
  · rintro ⟨agree, -⟩ rooted harmless
    exact (agree.mp ⟨_, harmless, rfl⟩).2 rooted
  · intro caught
    refine ⟨⟨?_, ?_⟩, fun found accepted => accepted.2.symm⟩
    · rintro ⟨found, harmless, -⟩
      exact ⟨harmless, fun rooted => caught rooted harmless⟩
    · rintro ⟨harmless, -⟩
      exact ⟨_, harmless, rfl⟩

theorem admittedBucket_data : AdmittedBucket "data" := ⟨by decide, by decide, by decide⟩

/-- The validators agree on a nested key. -/
theorem validators_agree_nested : ValidatorsAgree "s3" "data" "logs/2024" := by
  apply (@validators_agree_iff "s3" "data" "logs/2024" (by decide) admittedBucket_data).mpr
  intro rooted
  exact absurd rooted (by decide)

/-- A key that starts with `/` is parsed out of a URL and refused by the storage layer. -/
theorem rooted_key_disagrees :
    "s3" ∈ SCHEMES ∧ AdmittedBucket "data" ∧
      parseCloudUrl "s3://data//logs" = .ok ("s3", "data", "/logs") ∧
      validateCloudPath "/logs" = .error (.invalidCloudPath "path must not start with '/'") ∧
      ¬ValidatorsAgree "s3" "data" "/logs" := by
  have parsed : parseCloudUrl (cloudUrl "s3" "data" "/logs") = .ok ("s3", "data", "/logs") := by
    decide +kernel
  have refused : validateCloudPath "/logs" =
      .error (.invalidCloudPath "path must not start with '/'") := by decide +kernel
  refine ⟨by decide, admittedBucket_data, parsed, refused, ?_⟩
  rintro ⟨agree, -⟩
  have accepted := agree.mp ⟨_, parsed⟩
  rw [refused] at accepted
  cases accepted

end AetherArch
