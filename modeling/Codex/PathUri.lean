/-
`PathUri`: a `file:` URL that is read and edited by its path segments, under the
convention its shape shows. A URL is its host and its segments; the root path has
none. Of the crates it rests on, percent-encoding is `PercentEncoding` with the
bytes a segment keeps as a parameter, and which hosts are accepted and the Base64
of opaque paths are parameters too (`Crates`).

Source: utils/path-uri/src/lib.rs, absolute_path_normalization.rs.
-/
import Codex.Text
import Codex.Lib.PercentEncoding
import Mathlib.Tactic.Common

namespace Codex.Paths

inductive PathConvention where
  | posix
  | windows
  deriving DecidableEq

inductive PathUriParseError where
  | invalidFileUriPath (path : Text)
  deriving DecidableEq

/-- `keeps` are the bytes that `url` writes as they are in a segment; `setHost` gives the host it makes of a text. -/
structure Crates where
  keeps : UInt8 → Bool
  keepsAscii : PercentEncoding.KeepsAscii keeps
  keepsDrive : ∀ b : UInt8, (Char.ofNat b.toNat).isAlpha = true ∨ b = 58 → keeps b = true
  setHost : Text → Option Text
  encodeBase64 : List UInt8 → Text
  decodeBase64 : Text → Option (List UInt8)

/-! ## URLs -/

structure Url where
  host : Option Text
  segments : List Text
  deriving DecidableEq

def utf8 (text : Text) : List UInt8 := text.flatMap String.utf8EncodeChar

def Url.toText (url : Url) : Text := "file://".toList ++ url.host.getD [] ++ '/' :: List.intercalate ['/'] url.segments

variable (c : Crates)

def encodeSegment (segment : Text) : Text := PercentEncoding.encode c.keeps (utf8 segment)

/-- `PathSegmentsMut::push`; to the root an empty segment adds nothing. -/
def push (segments : List Text) (segment : Text) : List Text :=
  if segments = [] ∧ segment = [] then [] else segments ++ [encodeSegment c segment]

/-- `PathSegmentsMut::pop_if_empty` -/
def popIfEmpty (segments : List Text) : List Text :=
  if segments.getLast? = some [] then segments.dropLast else segments

def nonEmpty (segments : List Text) : List Text := segments.filter fun segment => segment ≠ []

def badPath : List Text := ["%00".toList, "bad".toList, "path".toList]

/-- The bytes of an opaque fallback URI, `file:///%00/bad/path/<base64>`. -/
def decodeBadPathUri (url : Url) : Option (List UInt8) :=
  match url.host, url.segments with
  | none, [s₀, s₁, s₂, encodedPath] =>
    if [s₀, s₁, s₂] = badPath ∧ encodedPath ≠ [] then
      (c.decodeBase64 encodedPath).filter fun bytes => c.encodeBase64 bytes = encodedPath
    else none
  | _, _ => none

def isWindowsDriveUriSegment (segment : Text) : Bool :=
  match segment with
  | [drive, ':'] => drive.isAlpha
  | _ => false

/-- A segment decodes to a text with a null; the `/` between two segments is no hex digit. -/
def containsNull (url : Url) : Bool := url.segments.any fun segment => (PercentEncoding.decode segment).contains 0

def validateFileUrl (url : Url) : Except PathUriParseError Unit :=
  if containsNull url && (decodeBadPathUri c url).isNone then .error (.invalidFileUriPath url.toText) else .ok ()

def withoutLocalhostAuthority (url : Url) : Url :=
  if url.host = some "localhost".toList then { url with host := none } else url

/-- The drive letter of the first segment that is not empty, in upper case. -/
def normalizeDrive : List Text → List Text
  | [] => []
  | segment :: rest =>
    if segment = [] then segment :: normalizeDrive rest
    else if isWindowsDriveUriSegment segment then segment.map Char.toUpper :: rest
    else segment :: rest

def withNormalizedWindowsDriveLetter (url : Url) : Url :=
  if url.host.isSome then url else { url with segments := normalizeDrive url.segments }

def canonical (url : Url) : Url := withNormalizedWindowsDriveLetter (withoutLocalhostAuthority url)

/-! ### What is canonical stays so -/

theorem isWindowsDriveUriSegment_iff {segment : Text} :
    isWindowsDriveUriSegment segment = true ↔ ∃ drive : Char, segment = [drive, ':'] ∧ drive.isAlpha = true := by
  unfold isWindowsDriveUriSegment
  split
  next drive => simp
  next hne =>
    refine iff_of_false Bool.false_ne_true ?_
    rintro ⟨drive, rfl, -⟩
    exact hne drive rfl

/-- A property of the ASCII letters, seen one by one. -/
theorem isAlpha_induction {P : Char → Prop} (h : ∀ n : Fin 128, (Char.ofNat n).isAlpha = true → P (Char.ofNat n))
    {drive : Char} (halpha : drive.isAlpha = true) : P drive := by
  have hlt : drive.toNat < 128 := by
    have hupperOrLower : (drive.isUpper || drive.isLower) = true := halpha
    have hbounds : ('A'.val ≤ drive.val ∧ drive.val ≤ 'Z'.val) ∨ ('a'.val ≤ drive.val ∧ drive.val ≤ 'z'.val) := by
      rcases Bool.or_eq_true_iff.1 hupperOrLower with hupper | hlower
      · exact .inl (of_decide_eq_true hupper)
      · obtain ⟨hge, hle⟩ := Bool.and_eq_true_iff.1 hlower
        exact .inr ⟨of_decide_eq_true hge, of_decide_eq_true hle⟩
    have hz : ('z'.val).toNat = 122 := rfl
    have hZ : ('Z'.val).toNat = 90 := rfl
    rcases hbounds with ⟨-, hle⟩ | ⟨-, hle⟩
    · have := UInt32.le_iff_toNat_le.1 hle
      show drive.val.toNat < 128
      omega
    · have := UInt32.le_iff_toNat_le.1 hle
      show drive.val.toNat < 128
      omega
  have hdrive : Char.ofNat drive.toNat = drive := Char.ofNat_toNat drive
  rw [← hdrive] at halpha ⊢
  exact h ⟨drive.toNat, hlt⟩ halpha

theorem toUpper_drive {drive : Char} (h : drive.isAlpha = true) :
    drive.toUpper.isAlpha = true ∧ drive.toUpper.toUpper = drive.toUpper :=
  isAlpha_induction (P := fun drive => drive.toUpper.isAlpha = true ∧ drive.toUpper.toUpper = drive.toUpper)
    (by decide +kernel) h

theorem utf8_drive {drive : Char} (h : drive.isAlpha = true) :
    String.utf8EncodeChar drive = [UInt8.ofNat drive.toNat] ∧ UInt8.ofNat drive.toNat ≠ 0 ∧
      Char.ofNat (UInt8.ofNat drive.toNat).toNat = drive ∧ drive ≠ '%' :=
  isAlpha_induction (P := fun drive => String.utf8EncodeChar drive = [UInt8.ofNat drive.toNat] ∧
    UInt8.ofNat drive.toNat ≠ 0 ∧ Char.ofNat (UInt8.ofNat drive.toNat).toNat = drive ∧ drive ≠ '%') (by decide +kernel) h

theorem decode_drive {drive : Char} (h : drive.isAlpha = true) :
    PercentEncoding.decode [drive, ':'] = [UInt8.ofNat drive.toNat, 58] := by
  obtain ⟨hbyte, -, -, hsign⟩ := utf8_drive h
  rw [PercentEncoding.decode_cons hsign, PercentEncoding.decode_cons (by decide), hbyte]
  rfl

theorem normalizeDrive_nil (rest : List Text) : normalizeDrive ([] :: rest) = [] :: normalizeDrive rest := rfl

theorem normalizeDrive_cons {segment : Text} (h : segment ≠ []) (rest : List Text) :
    normalizeDrive (segment :: rest) =
      (if isWindowsDriveUriSegment segment then segment.map Char.toUpper else segment) :: rest := by
  rw [normalizeDrive, if_neg h]
  split <;> rfl

theorem normalizeDrive_idem (segments : List Text) : normalizeDrive (normalizeDrive segments) = normalizeDrive segments := by
  induction segments with
  | nil => rfl
  | cons segment rest ih =>
    by_cases hnil : segment = []
    · rw [hnil, normalizeDrive_nil, normalizeDrive_nil, ih]
    · rw [normalizeDrive_cons hnil]
      split
      next hdrive =>
        obtain ⟨drive, rfl, halpha⟩ := isWindowsDriveUriSegment_iff.1 hdrive
        obtain ⟨hupper, hagain⟩ := toUpper_drive halpha
        have hsegment : [drive, ':'].map Char.toUpper = [drive.toUpper, ':'] := rfl
        rw [hsegment, normalizeDrive_cons (List.cons_ne_nil _ _),
          if_pos (isWindowsDriveUriSegment_iff.2 ⟨_, rfl, hupper⟩), List.map_cons, hagain]
        rfl
      next hdrive => rw [normalizeDrive_cons hnil, if_neg hdrive]

theorem null_normalizeDrive (segments : List Text) :
    ((normalizeDrive segments).any fun segment => (PercentEncoding.decode segment).contains 0) =
      segments.any fun segment => (PercentEncoding.decode segment).contains 0 := by
  induction segments with
  | nil => rfl
  | cons segment rest ih =>
    by_cases hnil : segment = []
    · rw [hnil, normalizeDrive_nil, List.any_cons, List.any_cons, ih]
    · rw [normalizeDrive_cons hnil, List.any_cons, List.any_cons]
      congr 1
      split
      next hdrive =>
        obtain ⟨drive, rfl, halpha⟩ := isWindowsDriveUriSegment_iff.1 hdrive
        have hnull : ∀ {d : Char}, d.isAlpha = true → (PercentEncoding.decode [d, ':']).contains 0 = false := by
          intro d hd
          rw [decode_drive hd, List.contains_eq_mem, decide_eq_false_iff_not, List.mem_cons, List.mem_singleton]
          rintro (hzero | hzero)
          · exact (utf8_drive hd).2.1 hzero.symm
          · exact absurd hzero (by decide)
        exact (hnull (toUpper_drive halpha).1).trans (hnull halpha).symm
      next => rfl

theorem canonical_idem (url : Url) : canonical (canonical url) = canonical url := by
  unfold canonical withoutLocalhostAuthority withNormalizedWindowsDriveLetter
  split
  · simp [normalizeDrive_idem]
  next hlocal =>
    split
    next hhost => simp
    next hhost => simp [normalizeDrive_idem]

theorem containsNull_canonical (url : Url) : containsNull (canonical url) = containsNull url := by
  unfold canonical withoutLocalhostAuthority withNormalizedWindowsDriveLetter containsNull
  split
  · exact null_normalizeDrive _
  · split
    · rfl
    · exact null_normalizeDrive _

theorem canonical_of_badPath {url : Url} {bytes} (h : decodeBadPathUri c url = some bytes) :
    canonical url = url := by
  unfold decodeBadPathUri at h
  split at h
  next s₀ s₁ s₂ encodedPath hhost hsegments =>
    split at h
    next hbad =>
      obtain ⟨rfl, rfl, rfl⟩ : s₀ = "%00".toList ∧ s₁ = "bad".toList ∧ s₂ = "path".toList := by
        simpa [badPath] using hbad.1
      obtain ⟨host, segments⟩ := url
      subst hhost hsegments
      rfl
    next => cases h
  next => cases h

theorem validateFileUrl_canonical {url : Url} (h : validateFileUrl c url = .ok ()) :
    validateFileUrl c (canonical url) = .ok () := by
  cases hdecode : decodeBadPathUri c url with
  | some bytes => rwa [canonical_of_badPath c hdecode]
  | none =>
    have hnull : containsNull url = false := by
      unfold validateFileUrl at h
      rw [hdecode] at h
      by_contra hne
      rw [if_pos (by simp [hne])] at h
      cases h
    unfold validateFileUrl
    rw [containsNull_canonical, hnull]
    rfl

/-! ## `PathUri` -/

structure PathUri where
  url : Url
  valid : validateFileUrl c url = .ok ()
  canonical : canonical url = url

def tryFrom (url : Url) : Except PathUriParseError (PathUri c) :=
  match h : validateFileUrl c url with
  | .error e => .error e
  | .ok _ => .ok { url := canonical url, valid := validateFileUrl_canonical c h, canonical := canonical_idem url }

/-- The source takes it as settled that this is valid. -/
def fromOpaquePathBytes (bytes : List UInt8) : Option (PathUri c) :=
  (tryFrom c { host := none, segments := badPath ++ [c.encodeBase64 bytes] }).toOption

def anchorDepth (convention : PathConvention) : Nat :=
  match convention with
  | .posix => 0
  | .windows => 1

structure Normalizing where
  normalizedSegments : List Text := []
  depth : Nat := 0
  hasTrailingSeparator : Bool := false

def Normalizing.step (anchor : Nat) (n : Normalizing) (segment : Text) : Normalizing :=
  if segment = [] then { n with hasTrailingSeparator := true }
  else if segment = ['.'] then { n with hasTrailingSeparator := false }
  else if segment = ['.', '.'] then
    if n.depth > anchor then {
      normalizedSegments := n.normalizedSegments.dropLast
      depth := n.depth - 1
      hasTrailingSeparator := false }
    else { n with hasTrailingSeparator := false }
  else {
    normalizedSegments := n.normalizedSegments ++ [segment]
    depth := n.depth + 1
    hasTrailingSeparator := false }

/-- `Url::set_host`, where there is a host to set. -/
def hostOf (host : Option Text) : Option (Option Text) :=
  match host with
  | some host => (c.setHost host).map some
  | none => some none

def pathUriFromSegments (convention : PathConvention) (host : Option Text) (segments : List Text) : Option (PathUri c) := do
  let urlHost ← hostOf c host
  let n := segments.foldl (Normalizing.step (anchorDepth convention)) {}
  let normalizedSegments :=
    if n.hasTrailingSeparator || (convention = .windows && host.isNone && n.depth = anchorDepth convention) then
      n.normalizedSegments ++ [[]]
    else n.normalizedSegments
  (tryFrom c { host := urlHost, segments := normalizedSegments.foldl (push c) [] }).toOption

def isWindowsSeparator (ch : Char) : Bool := ch = '\\' || ch = '/'

/-- `str::encode_utf16`, each unit's low byte first. -/
def utf16le (text : Text) : List UInt8 :=
  text.flatMap fun ch =>
    let units := if ch.toNat < 0x10000 then [ch.toNat]
      else [0xD800 + (ch.toNat - 0x10000) / 0x400, 0xDC00 + (ch.toNat - 0x10000) % 0x400]
    units.flatMap fun unit => [UInt8.ofNat unit, UInt8.ofNat (unit / 256)]

def windowsOpaquePathUri (path : Text) : Option (PathUri c) := fromOpaquePathBytes c (utf16le path)

def parsePosixPath (path : Text) : Option (PathUri c) :=
  match path with
  | '/' :: rest =>
    if '\x00' ∈ rest then fromOpaquePathBytes c (utf8 path)
    else pathUriFromSegments c .posix none (rest.splitOn '/')
  | _ => none

def usesNamespace (path : Text) : Bool :=
  match path with
  | first :: second :: kind :: separator :: _ =>
    isWindowsSeparator first && isWindowsSeparator second && isWindowsSeparator separator && (kind = '.' || kind = '?')
  | _ => false

def parseUncPath (path : Text) : Option (PathUri c) :=
  match path with
  | first :: second :: rest =>
    if isWindowsSeparator first && isWindowsSeparator second then
      match rest.splitOnP isWindowsSeparator with
      | host :: share :: components =>
        if host = [] ∨ share = [] then none
        else (pathUriFromSegments c .windows (some host) (share :: components)).or (windowsOpaquePathUri c path)
      | _ => none
    else none
  | _ => none

def parseWindowsPath (path : Text) : Option (PathUri c) :=
  if usesNamespace path || '\x00' ∈ path then windowsOpaquePathUri c path
  else match path with
    | drive :: ':' :: separator :: rest =>
      if drive.isAlpha && isWindowsSeparator separator then
        pathUriFromSegments c .windows none ([drive, ':'] :: rest.splitOnP isWindowsSeparator)
      else parseUncPath c path
    | _ => parseUncPath c path

def fromAbsoluteNativePath (path : Text) (convention : PathConvention) : Option (PathUri c) :=
  match convention with
  | .posix => parsePosixPath c path
  | .windows => parseWindowsPath c path

def inferOpaquePathConvention (pathBytes : List UInt8) : Option PathConvention :=
  if pathBytes.head? = some 47 then some .posix
  else if pathBytes.length % 2 ≠ 0 then none
  else match pathBytes with
    | a₀ :: a₁ :: b₀ :: b₁ :: _ =>
      let hasDrive := a₁ = 0 && (Char.ofNat a₀.toNat).isAlpha && b₀ = 58 && b₁ = 0
      let hasUncPrefix := a₀ = 92 && a₁ = 0 && b₀ = 92 && b₁ = 0
      if hasDrive || hasUncPrefix then some .windows else none
    | _ => none

variable {c}

namespace PathUri

def inferPathConvention (u : PathUri c) : Option PathConvention :=
  match decodeBadPathUri c u.url with
  | some pathBytes => inferOpaquePathConvention pathBytes
  | none =>
    if u.url.host.isSome then some .windows
    else if (u.url.segments.find? fun segment => segment ≠ []).any isWindowsDriveUriSegment then some .windows
    else some .posix

/-- What `join` does with one component of the path. -/
def joinComponent (c : Crates) (anchor : Nat) (place : List Text × Nat) (component : Text) : List Text × Nat :=
  if component = [] ∨ component = ['.'] then place
  else if component = ['.', '.'] then if place.2 > anchor then (place.1.dropLast, place.2 - 1) else place
  else (push c place.1 component, place.2 + 1)

/-- `while depth > anchor_depth` -/
def popToAnchor (anchor : Nat) (segments : List Text) : Nat → List Text × Nat
  | 0 => (segments, 0)
  | depth + 1 => if depth + 1 > anchor then popToAnchor anchor segments.dropLast depth else (segments, depth + 1)

def startsWithDrive (path : Text) : Bool :=
  match path with
  | drive :: ':' :: _ => drive.isAlpha
  | _ => false

def windowsRootRelative (path : Text) : Bool :=
  match path with
  | [] => false
  | [first] => isWindowsSeparator first
  | first :: second :: _ => isWindowsSeparator first && ! isWindowsSeparator second

def components (convention : PathConvention) (path : Text) : List Text :=
  (match convention with
    | .posix => path
    | .windows => path.map fun ch => if ch = '\\' then '/' else ch).splitOn '/'

def join (u : PathUri c) (path : Text) : Except PathUriParseError (PathUri c) :=
  if '\x00' ∈ path then .error (.invalidFileUriPath path)
  else if path = [] then .ok u
  else match u.inferPathConvention with
    | none => .error (.invalidFileUriPath u.url.toText)
    | some convention =>
      match fromAbsoluteNativePath c path convention with
      | some absolute => .ok absolute
      | none =>
        if convention = .windows && startsWithDrive path then .error (.invalidFileUriPath path)
        else if (decodeBadPathUri c u.url).isSome then .error (.invalidFileUriPath u.url.toText)
        else
          let anchor := anchorDepth convention
          let depth := (nonEmpty u.url.segments).length
          let segments := popIfEmpty u.url.segments
          let start := if convention = .windows && windowsRootRelative path then popToAnchor anchor segments depth
            else (segments, depth)
          let joined := (components convention path).foldl (joinComponent c anchor) start
          tryFrom c { u.url with segments := joined.1 }

end PathUri

end Codex.Paths
