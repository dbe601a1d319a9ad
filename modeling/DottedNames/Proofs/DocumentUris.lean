import DottedNames.Proofs.Trails
import DottedNames.Proofs.WholeNumbers
import DottedNames.Uri.Basic

/-!
# Paths written as URIs

An editor writes the path of a file as a `file` URI: letters, digits, slashes and
four more bytes stand as themselves, every other byte is escaped. Reading such a
URI cuts it at the bytes that mark a fragment, a query and the end of the
authority before any escape is replaced, and puts the path in normal form after
that. None of this may shift the path, or the editor's copy of a document and the
watcher's would be stored apart.

What makes it work is that the written form holds none of the bytes that reading
looks for: each of them is escaped, and the digits of an escape are letters and
digits. The authority of such a URI is empty, since a rooted path begins with a
slash and a slash is written as itself.

## Main results

* `unescape_of_escapes` — replacing the escapes of a written path gives the path.
* `toPath_of_escapes` — a rooted path in normal form is read back.
* `toPath_of_file_uri` — so it is for every such path, and whatever else a `file`
  URI is read as is a rooted path in normal form too, or the current directory.
-/

namespace DottedNames

namespace Uri

/-! ## Writing -/

/-- The bytes of a path that are written as themselves. -/
def isUnreserved (b : UInt8) : Bool := Byte.isAlnum b || (text "-._~/").contains b

/-- How a path can be written: every byte that is not written as itself is a
percent sign and two digits, each of which may be of either case. -/
inductive Escapes : Text → Text → Prop
  | nil : Escapes [] []
  | plain {b : UInt8} {path written : Text} (hByte : isUnreserved b = true)
      (rest : Escapes path written) : Escapes (b :: path) (b :: written)
  | escaped {b high low : UInt8} {path written : Text} (hByte : isUnreserved b = false)
      (hHigh : Byte.hexValue? high = some (b.toNat / 16))
      (hLow : Byte.hexValue? low = some (b.toNat % 16)) (rest : Escapes path written) :
      Escapes (b :: path) (Byte.percent :: high :: low :: written)

theorem isAlnum_of_hexValue? {b : UInt8} {n : Nat} (h : Byte.hexValue? b = some n) :
    Byte.isAlnum b = true := by
  unfold Byte.hexValue? at h
  simp only [Byte.isAlnum, Byte.isDigit, Byte.isUpper, Byte.isLower, Bool.and_eq_true,
    Bool.or_eq_true, decide_eq_true_eq, UInt8.le_iff_toNat_le, UInt8.reduceToNat] at h ⊢
  split at h
  · omega
  · split at h
    · omega
    · split at h
      · omega
      · exact absurd h (by simp)

/-- Every path can be written, for one with small digits. -/
theorem exists_escapes (path : Text) : ∃ written, Escapes path written := by
  have hDigit : ∀ n, n < 16 → Byte.hexValue? (Byte.hexDigit n) = some n := by decide
  induction path with
  | nil => exact ⟨[], .nil⟩
  | cons b path ih =>
      obtain ⟨written, hWritten⟩ := ih
      by_cases hByte : isUnreserved b = true
      · exact ⟨b :: written, .plain hByte hWritten⟩
      · have hHigh : b.toNat / 16 < 16 := by
          have hSize := b.toNat_lt
          omega
        have hLow : b.toNat % 16 < 16 := Nat.mod_lt _ (by omega)
        exact ⟨_, .escaped (Bool.eq_false_iff.2 hByte) (hDigit _ hHigh) (hDigit _ hLow) hWritten⟩

/-! ## What a written path holds -/

/-- Every byte of a written path is one that is written as itself, or a percent
sign. -/
theorem byte_of_escapes {path written : Text} (h : Escapes path written) :
    ∀ b ∈ written, isUnreserved b = true ∨ b = Byte.percent := by
  have hDigit : ∀ {b : UInt8} {n : Nat}, Byte.hexValue? b = some n → isUnreserved b = true := by
    intro b n hValue
    simp [isUnreserved, isAlnum_of_hexValue? hValue]
  induction h with
  | nil => simp
  | plain hByte _ ih =>
      intro c hc
      rcases List.mem_cons.1 hc with rfl | hRest
      · exact Or.inl hByte
      · exact ih c hRest
  | escaped _ hHigh hLow _ ih =>
      intro c hc
      simp only [List.mem_cons] at hc
      rcases hc with rfl | rfl | rfl | hRest
      · exact Or.inr rfl
      · exact Or.inl (hDigit hHigh)
      · exact Or.inl (hDigit hLow)
      · exact ih c hRest

/-- A byte that is never written stands nowhere in a written path. -/
theorem ne_of_escapes {path written : Text} (h : Escapes path written) {mark : UInt8}
    (hMark : isUnreserved mark = false) (hPercent : mark ≠ Byte.percent) :
    ∀ b ∈ written, (b == mark) = false := by
  intro b hb
  rw [beq_eq_false_iff_ne]
  rintro rfl
  rcases byte_of_escapes h b hb with hByte | hByte
  · rw [hMark] at hByte
    exact absurd hByte (by decide)
  · exact hPercent hByte

theorem not_isControl_of_isUnreserved {b : UInt8} (h : isUnreserved b = true) :
    isControl b = false := by
  simp only [isUnreserved, Byte.isAlnum, Byte.isDigit, Byte.isUpper, Byte.isLower, Bool.or_eq_true,
    Bool.and_eq_true, decide_eq_true_eq, List.contains_iff_mem, UInt8.le_iff_toNat_le,
    UInt8.reduceToNat] at h
  simp only [isControl, Bool.or_eq_false_iff, decide_eq_false_iff_not, beq_eq_false_iff_ne,
    UInt8.lt_iff_toNat_lt, ne_eq, ← UInt8.toNat_inj, UInt8.reduceToNat]
  rcases h with hAlnum | hMark
  · omega
  · have hMarks : text "-._~/" = [0x2d, 0x2e, 0x5f, 0x7e, 0x2f] := by decide
    rw [hMarks] at hMark
    simp only [List.mem_cons, List.not_mem_nil, or_false] at hMark
    rcases hMark with rfl | rfl | rfl | rfl | rfl <;> decide

theorem no_control_of_escapes {path written : Text} (h : Escapes path written) :
    ∀ b ∈ written, isControl b = false := by
  intro b hb
  rcases byte_of_escapes h b hb with hByte | rfl
  · exact not_isControl_of_isUnreserved hByte
  · decide

/-! ## Reading back -/

/-- Outside a host a byte other than the percent sign is left as it is. -/
theorem unescape_plain {b : UInt8} (h : b ≠ Byte.percent) (s : Text) :
    unescape .ordinary (b :: s) = (unescape .ordinary s).map (b :: ·) := by
  conv => lhs; unfold unescape
  rw [if_neg (by simpa using h)]
  rfl

/-- Outside a host every escape is replaced by its byte. -/
theorem unescape_escape {high low : UInt8} {h l : Nat} (hHigh : Byte.hexValue? high = some h)
    (hLow : Byte.hexValue? low = some l) (s : Text) :
    unescape .ordinary (Byte.percent :: high :: low :: s) =
      (unescape .ordinary s).map ((h * 16 + l).toUInt8 :: ·) := by
  rw [unescape, hHigh, hLow]
  rfl

/-- Replacing the escapes of a written path gives the path. -/
theorem unescape_of_escapes {path written : Text} (h : Escapes path written) :
    unescape .ordinary written = .ok path := by
  induction h with
  | nil => rfl
  | @plain b path written hByte _ ih =>
      have hPlain : b ≠ Byte.percent := by
        rintro rfl
        exact absurd hByte (by decide)
      rw [unescape_plain hPlain, ih]
      rfl
  | @escaped b high low path written _ hHigh hLow _ ih =>
      have hValue : (b.toNat / 16 * 16 + b.toNat % 16).toUInt8 = b := by
        rw [Nat.div_add_mod' b.toNat 16]
        exact UInt8.ofNat_toNat
      rw [unescape_escape hHigh hLow, ih, hValue]
      rfl

/-- A rooted path is written with a slash in front. -/
theorem slash_of_escapes {path written : Text} (hRooted : Path.isRooted path = true)
    (h : Escapes path written) : ∃ rest, written = Byte.slash :: rest := by
  cases h with
  | nil => exact absurd hRooted (by decide)
  | @plain b path written _ _ =>
      have hHead : b = Byte.slash := by simpa [Path.isRooted] using hRooted
      exact ⟨written, by rw [hHead]⟩
  | @escaped b high low path written hByte _ _ _ =>
      have hHead : b = Byte.slash := by simpa [Path.isRooted] using hRooted
      rw [hHead] at hByte
      exact absurd hByte (by decide)

theorem checkAuthority_nil : checkAuthority [] = .ok () := rfl

/-- A URI that is no more than a written path has no query and no authority. -/
theorem filePath_of_escapes {path written : Text} (hRooted : Path.isRooted path = true)
    (h : Escapes path written) : filePath written = .ok path := by
  have hQuery : dropQuery written = written := by
    rw [dropQuery, Text.cutAt_of_none (ne_of_escapes h (by decide) (by decide))]
  have hDecode : decode .ordinary written = .ok path := by
    rw [decode, unescape_of_escapes h]
  obtain ⟨rest, rfl⟩ := slash_of_escapes hRooted h
  have hAuthority : (Byte.slash :: rest).takeWhile (· != Byte.slash) = [] := by simp
  have hRest : (Byte.slash :: rest).dropWhile (· != Byte.slash) = Byte.slash :: rest := by simp
  simp only [filePath, hQuery, hAuthority, hRest, checkAuthority_nil, hDecode, bind, Except.bind]

theorem dropPrefix?_fileScheme (s : Text) :
    Text.dropPrefix? fileScheme (fileScheme ++ s) = some s :=
  Text.dropPrefix?_eq_some_iff.2 rfl

/-- A path in any written form is read back, up to its normal form. -/
theorem toPath_of_escapes {path written : Text} (hRooted : Path.isRooted path = true)
    (h : Escapes path written) : toPath (fileScheme ++ written) = .ok (Path.clean path) := by
  have hFragment : Text.cutAt (· == 0x23) (fileScheme ++ written) =
      (fileScheme ++ written, none) := by
    apply Text.cutAt_of_none
    intro b hb
    rcases List.mem_append.1 hb with hScheme | hWritten
    · rw [beq_eq_false_iff_ne]
      rintro rfl
      exact absurd hScheme (by decide)
    · exact ne_of_escapes h (by decide) (by decide) b hWritten
  have hControl : (fileScheme ++ written).any isControl = false := by
    rw [List.any_append, Bool.or_eq_false_iff]
    refine ⟨by decide, List.any_eq_false.2 fun b hb => ?_⟩
    rw [no_control_of_escapes h b hb]
    decide
  have hNoFragment : decode .ordinary (Option.getD none []) = .ok [] := rfl
  simp only [toPath, dropPrefix?_fileScheme, hFragment, hControl, List.drop_left,
    filePath_of_escapes hRooted h, hNoFragment, Bool.false_eq_true, if_false]

/-! ## Whatever is read -/

/-- Replacing escapes leaves a slash in front where it is. -/
theorem isRooted_of_unescape {s decoded : Text}
    (h : unescape .ordinary (Byte.slash :: s) = .ok decoded) : Path.isRooted decoded = true := by
  rw [unescape_plain (by decide)] at h
  cases hRest : unescape .ordinary s with
  | error fault => simp [hRest, Except.map] at h
  | ok rest =>
      simp only [hRest, Except.map, Except.ok.injEq] at h
      rw [← h]
      rfl

/-- The path of a `file` URI is rooted, or there is none. -/
theorem filePath_cases {s path : Text} (h : filePath s = .ok path) :
    path = [] ∨ Path.isRooted path = true := by
  unfold filePath at h
  cases hAuthority : checkAuthority ((dropQuery s).takeWhile (· != Byte.slash)) with
  | error fault => simp [hAuthority, bind, Except.bind] at h
  | ok _ =>
      simp only [hAuthority, bind, Except.bind, decode] at h
      cases hRest : (dropQuery s).dropWhile (· != Byte.slash) with
      | nil =>
          rw [hRest] at h
          exact Or.inl (Except.ok.inj h).symm
      | cons b rest =>
          have hHead : b = Byte.slash := by
            have hStop := List.head?_dropWhile_not (· != Byte.slash) (dropQuery s)
            rw [hRest] at hStop
            simpa using hStop
          rw [hRest, hHead] at h
          split at h
          · next decoded hDecoded =>
              rw [← Except.ok.inj h]
              exact Or.inr (isRooted_of_unescape hDecoded)
          · exact absurd h (by simp)

/-- What a `file` URI is read as. -/
theorem toPath_cases {s path : Text} (h : toPath (fileScheme ++ s) = .ok path) :
    ∃ decoded, path = Path.clean decoded ∧ (decoded = [] ∨ Path.isRooted decoded = true) := by
  simp only [toPath, dropPrefix?_fileScheme] at h
  split at h
  · exact absurd h (by simp)
  · split at h
    · exact absurd h (by simp)
    · next decoded hDecoded =>
        split at h
        · exact absurd h (by simp)
        · exact ⟨decoded, (Except.ok.inj h).symm, filePath_cases hDecoded⟩

/-- A rooted path in normal form can be written as a URI, and in whatever way that
is done the URI is read as the path. Whatever text follows the scheme, what is
read is a rooted path in normal form or the current directory. -/
theorem toPath_of_file_uri :
    (∀ path, Path.isRooted path = true → Path.clean path = path →
      (∃ written, Escapes path written) ∧
        ∀ written, Escapes path written → toPath (fileScheme ++ written) = .ok path) ∧
      ∀ s path, toPath (fileScheme ++ s) = .ok path →
        path = Trail.here ∨ (Path.isRooted path = true ∧ Path.clean path = path) := by
  constructor
  · intro path hRooted hClean
    refine ⟨exists_escapes path, fun written hWritten => ?_⟩
    rw [toPath_of_escapes hRooted hWritten, hClean]
  · intro s path hPath
    obtain ⟨decoded, rfl, hNone | hRooted⟩ := toPath_cases hPath
    · rw [hNone]
      exact Or.inl (by decide)
    · exact Or.inr ⟨Path.isRooted_clean hRooted, Path.clean_clean decoded⟩

/-- The name of a file at the top: a space, the bytes that mark an escape, a query,
a fragment and a service, a zero byte and a stray one. -/
def awkwardPath : Text := [Byte.slash, 0x20, 0x25, 0x3f, 0x23, 0x3a, 0x00, 0xff]

/-- The awkward path, with digits of both cases. -/
theorem escapes_awkwardPath : Escapes awkwardPath (text "/%20%25%3f%23%3A%00%fF") := by
  have hWritten : text "/%20%25%3f%23%3A%00%fF" =
      [0x2f, 0x25, 0x32, 0x30, 0x25, 0x32, 0x35, 0x25, 0x33, 0x66, 0x25, 0x32, 0x33, 0x25, 0x33,
        0x41, 0x25, 0x30, 0x30, 0x25, 0x66, 0x46] := by decide +kernel
  rw [hWritten]
  exact .plain rfl (.escaped rfl rfl rfl (.escaped rfl rfl rfl (.escaped rfl rfl rfl
    (.escaped rfl rfl rfl (.escaped rfl rfl rfl (.escaped rfl rfl rfl
      (.escaped rfl rfl rfl .nil)))))))

/-- The awkward path is read back, so it is one of those that can be read. -/
theorem toPath_of_awkward_uri :
    toPath (fileScheme ++ text "/%20%25%3f%23%3A%00%fF") = .ok awkwardPath ∧
      Path.isRooted awkwardPath = true ∧ Path.clean awkwardPath = awkwardPath := by
  have hRead : toPath (fileScheme ++ text "/%20%25%3f%23%3A%00%fF") = .ok awkwardPath :=
    (toPath_of_file_uri.1 awkwardPath (by decide) (by decide)).2 _ escapes_awkwardPath
  exact ⟨hRead, (toPath_of_file_uri.2 _ _ hRead).resolve_left (by decide)⟩

end Uri

end DottedNames
