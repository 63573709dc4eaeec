/-
Joining paths to a `PathUri`. Two joins are one (`join_join`), and no join takes
away the segments that anchor the URI (`join_anchored`).

Source: utils/path-uri/src/lib.rs (`PathUri::join`).
-/
import Codex.PathUri

namespace Codex.Paths

variable {c : Crates}

/-! ## Segments -/

theorem utf8_eq_nil {text : Text} : utf8 text = [] ↔ text = [] := by
  cases text with
  | nil => exact iff_of_true rfl rfl
  | cons ch text =>
    rw [utf8, List.flatMap_cons, List.append_eq_nil_iff]
    exact iff_of_false (fun h => String.utf8EncodeChar_ne_nil h.1) (List.cons_ne_nil _ _)

variable {segment : Text} (segments : List Text) {anchor : Nat} {A : List Text} {place : List Text × Nat}
  {url : Url} {path : Text} {convention : PathConvention} {v : PathUri c}

theorem encodeSegment_eq_nil : encodeSegment c segment = [] ↔ segment = [] := by
  rw [encodeSegment, PercentEncoding.encode_eq_nil, utf8_eq_nil]

theorem push_of_ne (h : segment ≠ []) (segments : List Text) :
    push c segments segment = segments ++ [encodeSegment c segment] := by
  rw [push, if_neg fun hboth => h hboth.2]

theorem ofNat_eq_zero {n : Nat} (h : n < 256) (hzero : 0 = UInt8.ofNat n) : n = 0 := by
  have htoNat := congrArg UInt8.toNat hzero
  rw [UInt8.toNat_ofNat', Nat.mod_eq_of_lt h] at htoNat
  exact htoNat.symm

/-- Only the null character has a null byte. -/
theorem zero_mem_utf8EncodeChar {ch : Char} (h : 0 ∈ String.utf8EncodeChar ch) : ch = '\x00' := by
  have hbyte : ∀ {n : Nat}, 0 < n → n < 256 → (0 : UInt8) ≠ UInt8.ofNat n := by
    intro n hpos hlt hzero
    have := ofNat_eq_zero hlt hzero
    omega
  have htail : ∀ v : Nat, (0 : UInt8) ≠ UInt8.ofNat (v % 64 + 128) := fun v => hbyte (by omega) (by omega)
  unfold String.utf8EncodeChar at h
  dsimp only at h
  split at h
  next hle =>
    have hzero := ofNat_eq_zero (by omega) (List.mem_singleton.1 h)
    exact Char.ext (UInt32.toNat_inj.1 hzero)
  next =>
    split at h
    · simp only [List.mem_cons, List.not_mem_nil, or_false] at h
      rcases h with h | h
      · exact absurd h (hbyte (by omega) (by omega))
      · exact absurd h (htail _)
    · split at h
      · simp only [List.mem_cons, List.not_mem_nil, or_false] at h
        rcases h with h | h | h
        · exact absurd h (hbyte (by omega) (by omega))
        · exact absurd h (htail _)
        · exact absurd h (htail _)
      · simp only [List.mem_cons, List.not_mem_nil, or_false] at h
        rcases h with h | h | h | h
        · exact absurd h (hbyte (by omega) (by omega))
        · exact absurd h (htail _)
        · exact absurd h (htail _)
        · exact absurd h (htail _)

theorem decode_encodeSegment (segment : Text) : PercentEncoding.decode (encodeSegment c segment) = utf8 segment :=
  PercentEncoding.decode_encode c.keepsAscii _

theorem null_encodeSegment (h : '\x00' ∉ segment) :
    (PercentEncoding.decode (encodeSegment c segment)).contains 0 = false := by
  rw [decode_encodeSegment, List.contains_eq_mem, decide_eq_false_iff_not]
  intro hzero
  obtain ⟨ch, hch, hbyte⟩ := List.mem_flatMap.1 hzero
  exact h (zero_mem_utf8EncodeChar hbyte ▸ hch)

theorem encodeSegment_drive {drive : Char} (h : drive.isAlpha = true) : encodeSegment c [drive, ':'] = [drive, ':'] := by
  obtain ⟨hbyte, -, hchar, -⟩ := utf8_drive h
  have hbytes : utf8 [drive, ':'] = [UInt8.ofNat drive.toNat, 58] := by
    rw [utf8, List.flatMap_cons, hbyte]
    rfl
  rw [encodeSegment, hbytes, PercentEncoding.encode_kept]
  · rw [List.map_cons, hchar]
    rfl
  · intro b hb
    apply c.keepsDrive
    rcases List.mem_cons.1 hb with rfl | hb
    · rw [hchar]
      exact .inl h
    · exact .inr (List.mem_singleton.1 hb)

/-- No segment is empty but for the last. -/
def NoInteriorEmpty (segments : List Text) : Prop := ∀ segment ∈ segments.dropLast, segment ≠ []

theorem popIfEmpty_of_clean {segments} (h : ∀ segment ∈ segments, segment ≠ []) : popIfEmpty segments = segments := by
  rw [popIfEmpty, if_neg]
  intro hlast
  exact h [] (List.mem_of_getLast? hlast) rfl

theorem popIfEmpty_concat : popIfEmpty (segments ++ [[]]) = segments := by
  rw [popIfEmpty, if_pos List.getLast?_concat, List.dropLast_concat]

theorem nonEmpty_of_clean {segments} (h : ∀ segment ∈ segments, segment ≠ []) : nonEmpty segments = segments := by
  rw [nonEmpty, List.filter_eq_self]
  simpa using h

theorem nonEmpty_popIfEmpty : nonEmpty (popIfEmpty segments) = nonEmpty segments := by
  unfold popIfEmpty
  split
  next hlast =>
    obtain ⟨init, rfl⟩ : ∃ init, segments = init ++ [[]] := ⟨_, (List.dropLast_append_getLast? _ hlast).symm⟩
    simp [nonEmpty]
  next => rfl

theorem popIfEmpty_clean {segments} (h : NoInteriorEmpty segments) :
    ∀ segment ∈ popIfEmpty segments, segment ≠ [] := by
  unfold popIfEmpty
  split
  next => exact h
  next hlast =>
    intro segment hmem hnil
    subst hnil
    rcases List.eq_nil_or_concat segments with rfl | ⟨init, last, rfl⟩
    · cases hmem
    · rw [List.concat_eq_append] at hmem hlast h
      rcases List.mem_append.1 hmem with hmem | hmem
      · exact h [] (by rwa [List.dropLast_concat]) rfl
      · rw [List.mem_singleton.1 hmem] at hlast
        exact hlast List.getLast?_concat

/-! ## The loop over the components -/

open PathUri

/-- The segments are the anchor and a rest, and the depth is at most the anchor's and the rest's. -/
def Anchored (anchor : Nat) (A : List Text) (place : List Text × Nat) : Prop :=
  ∃ rest, place.1 = A ++ rest ∧ place.2 ≤ anchor + rest.length

theorem Anchored.pop {segments} {depth : Nat} (h : Anchored anchor A (segments, depth))
    (hdeep : depth > anchor) : Anchored anchor A (segments.dropLast, depth - 1) := by
  obtain ⟨rest, rfl, hdepth⟩ := h
  have hne : rest ≠ [] := by
    rintro rfl
    rw [List.length_nil] at hdepth
    omega
  refine ⟨rest.dropLast, List.dropLast_append_of_ne_nil hne, ?_⟩
  rw [List.length_dropLast]
  omega

theorem Anchored.joinComponent (h : Anchored anchor A place)
    (component : Text) : Anchored anchor A (joinComponent c anchor place component) := by
  unfold PathUri.joinComponent
  split
  · exact h
  next hplain =>
    split
    · split
      next hdeep => exact h.pop hdeep
      next => exact h
    next =>
      obtain ⟨rest, hsegments, hdepth⟩ := h
      rw [push_of_ne (fun hnil => hplain (.inl hnil)), hsegments]
      refine ⟨rest ++ [encodeSegment c component], List.append_assoc .., ?_⟩
      rw [List.length_append, List.length_singleton]
      omega

theorem Anchored.join (h : Anchored anchor A place)
    (components : List Text) : Anchored anchor A (components.foldl (PathUri.joinComponent c anchor) place) := by
  induction components generalizing place with
  | nil => exact h
  | cons component components ih => exact ih (h.joinComponent component)

theorem Anchored.popToAnchor {segments} {depth : Nat} (h : Anchored anchor A (segments, depth)) :
    Anchored anchor A (PathUri.popToAnchor anchor segments depth) := by
  induction depth generalizing segments with
  | zero => exact h
  | succ depth ih =>
    unfold PathUri.popToAnchor
    split
    next hdeep => exact ih (h.pop hdeep)
    next => exact h

/-- No segment is empty, and the depth is their number. -/
def Counted (place : List Text × Nat) : Prop := (∀ segment ∈ place.1, segment ≠ []) ∧ place.2 = place.1.length

theorem Counted.joinComponent (h : Counted place) (component : Text) :
    Counted (joinComponent c anchor place component) := by
  obtain ⟨hclean, hdepth⟩ := h
  unfold PathUri.joinComponent
  split
  · exact ⟨hclean, hdepth⟩
  next hplain =>
    split
    · split
      · refine ⟨fun segment hmem => hclean segment ((List.dropLast_sublist _).mem hmem), ?_⟩
        rw [List.length_dropLast, hdepth]
      · exact ⟨hclean, hdepth⟩
    next =>
      have hne : component ≠ [] := fun hnil => hplain (.inl hnil)
      rw [push_of_ne hne]
      refine ⟨List.forall_mem_append.2 ⟨hclean, ?_⟩, by rw [List.length_append, List.length_singleton, hdepth]⟩
      intro segment hmem
      rw [List.mem_singleton.1 hmem]
      exact mt encodeSegment_eq_nil.1 hne

theorem Counted.join (h : Counted place) (components : List Text) :
    Counted (components.foldl (PathUri.joinComponent c anchor) place) := by
  induction components generalizing place with
  | nil => exact h
  | cons component components ih => exact ih (h.joinComponent component)

/-- No segment decodes to a text with a null. -/
def NullFree (segments : List Text) : Prop := ∀ segment ∈ segments, (PercentEncoding.decode segment).contains 0 = false

theorem containsNull_eq_false : containsNull url = false ↔ NullFree url.segments := by
  unfold containsNull NullFree
  simp

theorem NullFree.join (h : NullFree place.1) {components : List Text}
    (hcomponents : ∀ component ∈ components, '\x00' ∉ component) :
    NullFree (components.foldl (PathUri.joinComponent c anchor) place).1 := by
  induction components generalizing place with
  | nil => exact h
  | cons component components ih =>
    refine ih ?_ fun component' hmem => hcomponents component' (List.mem_cons_of_mem _ hmem)
    unfold PathUri.joinComponent
    split
    · exact h
    next hplain =>
      split
      · split
        · exact fun segment hmem => h segment ((List.dropLast_sublist _).mem hmem)
        · exact h
      next =>
        rw [push_of_ne (fun hnil => hplain (.inl hnil))]
        refine List.forall_mem_append.2 ⟨h, ?_⟩
        intro segment hmem
        rw [List.mem_singleton.1 hmem]
        exact null_encodeSegment (hcomponents component List.mem_cons_self)

/-! ## Path texts -/

def isSeparator (convention : PathConvention) (ch : Char) : Bool :=
  match convention with
  | .posix => ch = '/'
  | .windows => isWindowsSeparator ch

/-- A path text that starts neither at a root nor, under Windows, with a drive. -/
structure Relative (convention : PathConvention) (path : Text) : Prop where
  ne_nil : path ≠ []
  noNull : '\x00' ∉ path
  noSeparator : ∀ ch ∈ path.head?, isSeparator convention ch = false
  noDrive : convention = .windows → startsWithDrive path = false

theorem components_posix (path : Text) : components .posix path = path.splitOnP (isSeparator .posix) := by
  congr 1

theorem not_separator_of_mem {p : Char → Bool} {component : Text} (h : component ∈ path.splitOnP p) :
    ∀ ch ∈ component, p ch = false ∧ ch ∈ path := by
  induction path generalizing component with
  | nil =>
    rw [List.splitOnP_nil, List.mem_singleton] at h
    subst h
    intro ch hch
    cases hch
  | cons x path ih =>
    rw [List.splitOnP_cons_eq_if_modifyHead] at h
    intro ch hch
    split at h
    next =>
      rcases List.mem_cons.1 h with rfl | h
      · cases hch
      · obtain ⟨hp, hmem⟩ := ih h ch hch
        exact ⟨hp, List.mem_cons_of_mem _ hmem⟩
    next hx =>
      obtain ⟨first, rest, hsplit⟩ := List.exists_cons_of_ne_nil (List.splitOnP_ne_nil p path)
      rw [hsplit] at h ih
      rcases List.mem_cons.1 h with rfl | h
      · rcases List.mem_cons.1 hch with rfl | hch
        · exact ⟨Bool.eq_false_iff.2 hx, List.mem_cons_self⟩
        · obtain ⟨hp, hmem⟩ := ih List.mem_cons_self ch hch
          exact ⟨hp, List.mem_cons_of_mem _ hmem⟩
      · obtain ⟨hp, hmem⟩ := ih (List.mem_cons_of_mem _ h) ch hch
        exact ⟨hp, List.mem_cons_of_mem _ hmem⟩

theorem splitOnP_map (p : Char → Bool) (f : Char → Char) (path : Text) :
    (path.map f).splitOnP p = (path.splitOnP (p ∘ f)).map (List.map f) := by
  induction path with
  | nil => simp
  | cons x path ih =>
    rw [List.map_cons, List.splitOnP_cons_eq_if_modifyHead, List.splitOnP_cons_eq_if_modifyHead, ih, Function.comp_apply]
    split
    · rfl
    · obtain ⟨first, rest, hsplit⟩ := List.exists_cons_of_ne_nil (List.splitOnP_ne_nil (p ∘ f) path)
      rw [hsplit]
      rfl

theorem components_windows (path : Text) : components .windows path = path.splitOnP (isSeparator .windows) := by
  unfold components
  rw [List.splitOn_eq_splitOnP, splitOnP_map]
  have hsep : ((fun ch => ch == '/') ∘ fun ch => if ch = '\\' then '/' else ch) = isSeparator .windows := by
    funext ch
    simp only [Function.comp_apply, isSeparator, isWindowsSeparator]
    by_cases hback : ch = '\\' <;> by_cases hslash : ch = '/' <;> simp [hback, hslash]
  rw [hsep]
  refine (List.map_congr_left ?_).trans (List.map_id _)
  intro component hmem
  refine (List.map_congr_left ?_).trans (List.map_id _)
  intro ch hch
  have hnot := (not_separator_of_mem hmem ch hch).1
  rw [isSeparator, isWindowsSeparator, Bool.or_eq_false_iff, decide_eq_false_iff_not] at hnot
  exact if_neg hnot.1

theorem components_eq (convention : PathConvention) (path : Text) :
    components convention path = path.splitOnP (isSeparator convention) := by
  cases convention with
  | posix => exact components_posix path
  | windows => exact components_windows path

theorem components_append (convention : PathConvention) (p q : Text) :
    components convention (p ++ '/' :: q) = components convention p ++ components convention q := by
  rw [components_eq, components_eq, components_eq]
  refine List.splitOnP_append_cons p q ?_
  cases convention <;> rfl

theorem Relative.components_noNull (h : Relative convention path) :
    ∀ component ∈ components convention path, '\x00' ∉ component := by
  intro component hmem hnull
  rw [components_eq] at hmem
  exact h.noNull (not_separator_of_mem hmem _ hnull).2

theorem startsWithDrive_iff :
    startsWithDrive path = true ↔ ∃ drive rest, path = drive :: ':' :: rest ∧ drive.isAlpha = true := by
  unfold startsWithDrive
  split
  next drive rest => exact ⟨fun h => ⟨drive, rest, rfl, h⟩, fun ⟨_, _, heq, h⟩ => by cases heq; exact h⟩
  next hne =>
    refine iff_of_false Bool.false_ne_true ?_
    rintro ⟨drive, rest, rfl, -⟩
    exact hne drive rest rfl

theorem Relative.append {p q : Text} (hp : Relative convention p) (hq : '\x00' ∉ q) :
    Relative convention (p ++ '/' :: q) where
  ne_nil := by simp
  noNull := by
    rw [List.mem_append, List.mem_cons]
    rintro (h | h | h)
    · exact hp.noNull h
    · exact absurd h (by decide)
    · exact hq h
  noSeparator := by
    rw [List.head?_append_of_ne_nil _ hp.ne_nil]
    exact hp.noSeparator
  noDrive := by
    intro hwindows
    have hdrive := hp.noDrive hwindows
    rw [← Bool.not_eq_true, startsWithDrive_iff] at hdrive ⊢
    rintro ⟨drive, rest, heq, halpha⟩
    cases p with
    | nil => exact hp.ne_nil rfl
    | cons first tail =>
      cases tail with
      | nil => exact absurd (List.cons.inj (List.cons.inj heq).2).1 (by decide)
      | cons second tail =>
        obtain ⟨hfirst, htail⟩ := List.cons.inj heq
        obtain ⟨hsecond, -⟩ := List.cons.inj htail
        exact hdrive ⟨drive, tail, by rw [hfirst, hsecond], halpha⟩

theorem Relative.not_absolute (h : Relative convention path) :
    fromAbsoluteNativePath c path convention = none := by
  cases hpath : path with
  | nil => exact absurd hpath h.ne_nil
  | cons first rest =>
    have hfirst := h.noSeparator first (by rw [hpath]; rfl)
    have hnull := h.noNull
    have hdrive := h.noDrive
    rw [hpath] at hnull hdrive
    cases convention with
    | posix =>
      have hne : first ≠ '/' := by simpa [isSeparator] using hfirst
      unfold fromAbsoluteNativePath parsePosixPath
      dsimp only
      split
      next heq => exact absurd (List.cons.inj heq).1 hne
      next => rfl
    | windows =>
      have hunc : parseUncPath c (first :: rest) = none := by
        unfold parseUncPath
        split
        next second rest' heq =>
          rw [(List.cons.inj heq).1] at hfirst
          have hsep : isWindowsSeparator _ = false := hfirst
          rw [hsep]
          rfl
        next => rfl
      have hnamespace : usesNamespace (first :: rest) = false := by
        unfold usesNamespace
        split
        next heq =>
          rw [(List.cons.inj heq).1] at hfirst
          have hsep : isWindowsSeparator _ = false := hfirst
          rw [hsep]
          rfl
        next => rfl
      unfold fromAbsoluteNativePath parseWindowsPath
      dsimp only
      rw [hnamespace, if_neg (by simpa using hnull)]
      split
      next drive separator rest' heq =>
        have halpha : drive.isAlpha = false := by
          have := hdrive rfl
          rw [heq] at this
          exact this
        rw [halpha]
        exact hunc
      next => exact hunc

theorem Relative.not_rootRelative (h : Relative .windows path) : windowsRootRelative path = false := by
  cases path with
  | nil => rfl
  | cons first rest =>
    have hfirst : isWindowsSeparator first = false := h.noSeparator first rfl
    cases rest with
    | nil => exact hfirst
    | cons second rest =>
      rw [windowsRootRelative, hfirst]
      rfl

/-! ## Joining -/

theorem tryFrom_eq_ok {u} :
    tryFrom c url = .ok u ↔ validateFileUrl c url = .ok () ∧ u.url = canonical url := by
  unfold tryFrom
  split
  next e heq => simp [heq]
  next heq =>
    constructor
    · intro h
      cases h
      exact ⟨heq, rfl⟩
    · rintro ⟨-, hurl⟩
      obtain ⟨url', valid, canon⟩ := u
      subst hurl
      rfl

variable (c) in
theorem tryFrom_of_nullFree (url : Url) (h : NullFree url.segments) : ∃ u, tryFrom c url = .ok u ∧ u.url = canonical url := by
  have hvalid : validateFileUrl c url = .ok () := by
    rw [validateFileUrl, containsNull_eq_false.2 h]
    rfl
  exact ⟨⟨canonical url, validateFileUrl_canonical c hvalid, canonical_idem url⟩, tryFrom_eq_ok.2 ⟨hvalid, rfl⟩, rfl⟩

theorem containsNull_of_badPath {bytes} (h : decodeBadPathUri c url = some bytes) :
    containsNull url = true := by
  unfold decodeBadPathUri at h
  split at h
  next s₀ s₁ s₂ encodedPath hhost hsegments =>
    split at h
    next hbad =>
      obtain ⟨rfl, -, -⟩ : s₀ = "%00".toList ∧ s₁ = "bad".toList ∧ s₂ = "path".toList := by
        simpa [badPath] using hbad.1
      rw [containsNull, hsegments]
      rfl
    next => cases h
  next => cases h

theorem PathUri.nullFree {u : PathUri c} (h : decodeBadPathUri c u.url = none) : NullFree u.url.segments := by
  rw [← containsNull_eq_false]
  by_contra hne
  have hvalid := u.valid
  rw [validateFileUrl, h, if_pos (by simp [hne])] at hvalid
  cases hvalid

variable (c) in
theorem goodPath_of_nullFree (url : Url) (h : NullFree url.segments) : decodeBadPathUri c (canonical url) = none := by
  cases hbytes : decodeBadPathUri c (canonical url) with
  | none => rfl
  | some bytes =>
    have hsome := containsNull_of_badPath hbytes
    rw [containsNull_canonical, containsNull_eq_false.2 h] at hsome
    cases hsome

/-- Where the segments of a relative join are. -/
def joinedSegments (convention : PathConvention) (u : PathUri c) (path : Text) : List Text :=
  ((components convention path).foldl (joinComponent c (anchorDepth convention))
    (popIfEmpty u.url.segments, (nonEmpty u.url.segments).length)).1

theorem join_relative {u : PathUri c} (h : Relative convention path)
    (hconvention : u.inferPathConvention = some convention) (hgood : decodeBadPathUri c u.url = none) :
    u.join path = tryFrom c { u.url with segments := joinedSegments convention u path } := by
  have hroot : (decide (convention = .windows) && windowsRootRelative path) = false := by
    cases convention with
    | posix => rfl
    | windows => exact h.not_rootRelative
  have hdrive : (decide (convention = .windows) && startsWithDrive path) = false := by
    cases convention with
    | posix => rfl
    | windows => exact h.noDrive rfl
  unfold PathUri.join
  rw [if_neg h.noNull, if_neg h.ne_nil, hconvention]
  dsimp only
  rw [h.not_absolute]
  rw [hdrive, if_neg Bool.false_ne_true, hgood, if_neg (by simp), hroot, if_neg Bool.false_ne_true]
  rfl

/-! ## The anchor -/

theorem nonEmpty_append (s t : List Text) : nonEmpty (s ++ t) = nonEmpty s ++ nonEmpty t := List.filter_append ..

theorem split_first : nonEmpty segments = [] ∨
    ∃ E first rest, segments = E ++ first :: rest ∧ nonEmpty E = [] ∧ first ≠ [] := by
  induction segments with
  | nil => exact .inl rfl
  | cons segment segments ih =>
    by_cases hnil : segment = []
    · subst hnil
      rcases ih with hnone | ⟨E, first, rest, rfl, hE, hfirst⟩
      · exact .inl hnone
      · exact .inr ⟨[] :: E, first, rest, rfl, hE, hfirst⟩
    · exact .inr ⟨[], segment, segments, rfl, rfl, hnil⟩

theorem normalizeDrive_split {E} (hE : nonEmpty E = []) {first : Text} (hfirst : first ≠ []) (rest : List Text) :
    normalizeDrive (E ++ first :: rest) =
      E ++ (if isWindowsDriveUriSegment first then first.map Char.toUpper else first) :: rest := by
  induction E with
  | nil => exact normalizeDrive_cons hfirst rest
  | cons segment E ih =>
    by_cases hnil : segment = []
    · subst hnil
      rw [List.cons_append, normalizeDrive_nil, ih hE]
      rfl
    · rw [nonEmpty, List.filter_cons_of_pos (by simpa using hnil)] at hE
      exact absurd hE (List.cons_ne_nil _ _)

theorem nonEmpty_split {E} (hE : nonEmpty E = []) {first : Text} (hfirst : first ≠ []) (rest : List Text) :
    nonEmpty (E ++ first :: rest) = first :: nonEmpty rest := by
  rw [nonEmpty_append, hE, nonEmpty, List.filter_cons_of_pos (by simpa using hfirst)]
  rfl

theorem popIfEmpty_eq_or : segments = popIfEmpty segments ∨ segments = popIfEmpty segments ++ [[]] := by
  unfold popIfEmpty
  split
  next hlast => exact .inr (List.dropLast_append_getLast? _ hlast).symm
  next => exact .inl rfl

namespace PathUri

variable (u : PathUri c)

theorem host_ne_localhost : u.url.host ≠ some "localhost".toList := by
  intro hhost
  have hcanonical := congrArg Url.host u.canonical
  unfold Paths.canonical withoutLocalhostAuthority withNormalizedWindowsDriveLetter at hcanonical
  rw [if_pos hhost, hhost] at hcanonical
  simp at hcanonical

theorem canonical_of_host {host : Text} (hhost : u.url.host = some host) (segments : List Text) :
    Paths.canonical { u.url with segments } = { u.url with segments } := by
  unfold Paths.canonical withoutLocalhostAuthority withNormalizedWindowsDriveLetter
  rw [if_neg u.host_ne_localhost, if_pos (by simp [hhost])]

theorem canonical_of_none (hhost : u.url.host = none) (segments : List Text) :
    Paths.canonical { u.url with segments } = { u.url with segments := normalizeDrive segments } := by
  unfold Paths.canonical withoutLocalhostAuthority withNormalizedWindowsDriveLetter
  rw [if_neg u.host_ne_localhost, if_neg (by simp [hhost])]

theorem canonical_host : (Paths.canonical { u.url with segments }).host = u.url.host := by
  cases hhost : u.url.host with
  | none =>
    rw [u.canonical_of_none hhost]
    exact hhost
  | some host =>
    rw [u.canonical_of_host hhost]
    exact hhost

variable {u}

theorem infer_eq (hgood : decodeBadPathUri c u.url = none) :
    u.inferPathConvention =
      if u.url.host.isSome ∨ (nonEmpty u.url.segments).head?.any isWindowsDriveUriSegment then some .windows
      else some .posix := by
  unfold inferPathConvention
  rw [hgood]
  dsimp only
  rw [nonEmpty, List.head?_filter]
  by_cases hhost : u.url.host.isSome = true
  · rw [if_pos hhost, if_pos (.inl hhost)]
  · rw [if_neg hhost]
    split
    next hdrive => rw [if_pos (.inr hdrive)]
    next hdrive => rw [if_neg (not_or.2 ⟨hhost, hdrive⟩)]

/-- The segments a join starts from, the anchor first; a drive in it has its letter in upper case. -/
theorem anchored_start (hconvention : u.inferPathConvention = some convention)
    (hgood : decodeBadPathUri c u.url = none) :
    ∃ A, Anchored (anchorDepth convention) A (popIfEmpty u.url.segments, (nonEmpty u.url.segments).length) ∧
      (nonEmpty u.url.segments).take (anchorDepth convention) = nonEmpty A ∧
      (convention = .windows → ∀ rest, Paths.canonical { u.url with segments := A ++ rest } =
        { u.url with segments := A ++ rest }) := by
  rw [infer_eq hgood] at hconvention
  rw [← nonEmpty_popIfEmpty]
  cases convention with
  | posix =>
    refine ⟨[], ⟨popIfEmpty u.url.segments, rfl, ?_⟩, rfl, fun h => by cases h⟩
    have := List.length_filter_le (fun segment : Text => decide (segment ≠ [])) (popIfEmpty u.url.segments)
    dsimp only [anchorDepth]
    rw [Nat.zero_add]
    exact this
  | windows =>
    have hdrive : u.url.host.isSome = true ∨ (nonEmpty u.url.segments).head?.any isWindowsDriveUriSegment = true := by
      by_contra hne
      rw [if_neg hne] at hconvention
      cases hconvention
    rcases split_first (popIfEmpty u.url.segments) with hnone | ⟨E, first, rest, hsplit, hE, hfirst⟩
    · refine ⟨popIfEmpty u.url.segments, ⟨[], by simp, by rw [hnone]; simp⟩, by rw [hnone]; rfl, ?_⟩
      intro _ rest
      rw [← nonEmpty_popIfEmpty, hnone] at hdrive
      obtain ⟨host, hhost⟩ := Option.isSome_iff_exists.1 (hdrive.resolve_right (by simp))
      exact u.canonical_of_host hhost _
    · have hsplit' : popIfEmpty u.url.segments = (E ++ [first]) ++ rest := by rw [hsplit]; simp
      have hnonEmpty : nonEmpty (popIfEmpty u.url.segments) = first :: nonEmpty rest := by
        rw [hsplit, nonEmpty_split hE hfirst]
      refine ⟨E ++ [first], ⟨rest, hsplit', ?_⟩, ?_, ?_⟩
      · have := List.length_filter_le (fun segment : Text => decide (segment ≠ [])) rest
        rw [hnonEmpty, List.length_cons]
        show (nonEmpty rest).length + 1 ≤ 1 + rest.length
        unfold nonEmpty
        omega
      · rw [hnonEmpty, nonEmpty_split hE hfirst]
        rfl
      · intro _ rest'
        cases hhost : u.url.host with
        | some host => exact u.canonical_of_host hhost _
        | none =>
          rw [u.canonical_of_none hhost, List.append_assoc, List.singleton_append, normalizeDrive_split hE hfirst]
          have hbase : ∃ after, u.url.segments = E ++ first :: after := by
            rcases popIfEmpty_eq_or u.url.segments with heq | heq
            · exact ⟨rest, heq.trans hsplit⟩
            · exact ⟨rest ++ [[]], by rw [heq, hsplit]; simp⟩
          obtain ⟨after, hafter⟩ := hbase
          have hcanonical := u.canonical
          have hself := u.canonical_of_none hhost u.url.segments
          rw [hcanonical] at hself
          have hsame := congrArg Url.segments hself
          rw [hafter, normalizeDrive_split hE hfirst] at hsame
          have hfirst' := (List.cons.inj (List.append_cancel_left hsame)).1
          rw [← hfirst']

end PathUri

theorem nullFree_joinedSegments {u : PathUri c}
    (hgood : decodeBadPathUri c u.url = none) (hpath : ∀ component ∈ components convention path, '\x00' ∉ component) :
    NullFree (joinedSegments convention u path) := by
  refine NullFree.join ?_ hpath
  intro segment hmem
  have hbase := PathUri.nullFree hgood
  rcases popIfEmpty_eq_or u.url.segments with heq | heq
  · exact hbase segment (heq ▸ hmem)
  · rw [heq] at hbase
    exact hbase segment (List.mem_append_left _ hmem)

/-- A join of a relative path to a URI that is not opaque succeeds, and gives one that is not opaque. -/
theorem join_relative_ok {u : PathUri c} (h : Relative convention path)
    (hconvention : u.inferPathConvention = some convention) (hgood : decodeBadPathUri c u.url = none) :
    ∃ v, u.join path = .ok v ∧ v.url = canonical { u.url with segments := joinedSegments convention u path } ∧
      decodeBadPathUri c v.url = none := by
  have hnull := nullFree_joinedSegments hgood h.components_noNull
  obtain ⟨v, hv, hurl⟩ := tryFrom_of_nullFree c { u.url with segments := joinedSegments convention u path } hnull
  refine ⟨v, (join_relative h hconvention hgood).trans hv, hurl, ?_⟩
  rw [hurl]
  exact goodPath_of_nullFree c { u.url with segments := joinedSegments convention u path } hnull

theorem counted_start {u : PathUri c} (h : NoInteriorEmpty u.url.segments) :
    Counted (popIfEmpty u.url.segments, (nonEmpty u.url.segments).length) := by
  have hclean := popIfEmpty_clean h
  refine ⟨hclean, ?_⟩
  rw [← nonEmpty_popIfEmpty, nonEmpty_of_clean hclean]

theorem counted_joined {u : PathUri c} (h : NoInteriorEmpty u.url.segments) (convention : PathConvention) (path : Text) :
    Counted ((components convention path).foldl (joinComponent c (anchorDepth convention))
      (popIfEmpty u.url.segments, (nonEmpty u.url.segments).length)) :=
  (counted_start h).join _

/-- The URI of a join is what the loop has left, if it has the convention of the base. -/
theorem url_of_joined {u : PathUri c}
    (hclean : NoInteriorEmpty u.url.segments) (hconvention : u.inferPathConvention = some convention)
    (hgood : decodeBadPathUri c u.url = none) (hgood' : decodeBadPathUri c v.url = none)
    (hv : v.url = canonical { u.url with segments := joinedSegments convention u path })
    (hsame : v.inferPathConvention = some convention) :
    v.url = { u.url with segments := joinedSegments convention u path } := by
  cases convention with
  | windows =>
    obtain ⟨A, hanchored, -, hcanonical⟩ := PathUri.anchored_start hconvention hgood
    obtain ⟨rest, hrest, -⟩ := hanchored.join (c := c) (components .windows path)
    have hsegments : joinedSegments .windows u path = A ++ rest := hrest
    rw [hv, hsegments, hcanonical rfl]
  | posix =>
    have hhost : u.url.host = none := by
      rw [PathUri.infer_eq hgood] at hconvention
      split at hconvention
      · cases hconvention
      next hnot => simpa using not_or.1 hnot |>.1
    have hplain := counted_joined hclean .posix path
    rw [hv, u.canonical_of_none hhost]
    cases hsegments : joinedSegments .posix u path with
    | nil => rfl
    | cons first rest =>
      have hfirst : first ≠ [] := hplain.1 first (by
        show first ∈ joinedSegments .posix u path
        rw [hsegments]
        exact List.mem_cons_self)
      by_cases hdrive : isWindowsDriveUriSegment first = true
      · obtain ⟨drive, rfl, halpha⟩ := isWindowsDriveUriSegment_iff.1 hdrive
        have hwindows : v.inferPathConvention = some .windows := by
          rw [PathUri.infer_eq hgood', hv, u.canonical_of_none hhost, hsegments, normalizeDrive_cons hfirst, if_pos hdrive]
          refine if_pos (.inr ?_)
          exact isWindowsDriveUriSegment_iff.2 ⟨drive.toUpper, rfl, (toUpper_drive halpha).1⟩
        rw [hwindows] at hsame
        cases hsame
      · rw [normalizeDrive_cons hfirst, if_neg hdrive]

/-- **Two joins are one.** -/
theorem join_join {u : PathUri c} {p q : Text} (hclean : NoInteriorEmpty u.url.segments)
    (hgood : decodeBadPathUri c u.url = none) (hconvention : u.inferPathConvention = some convention)
    (hp : Relative convention p) (hq : Relative convention q) (hv : u.join p = .ok v)
    (hsame : v.inferPathConvention = some convention) : v.join q = u.join (p ++ '/' :: q) := by
  obtain ⟨v', hv', hurl, hgood'⟩ := join_relative_ok hp hconvention hgood
  obtain rfl : v' = v := Except.ok.inj (hv'.symm.trans hv)
  have hplain := url_of_joined hclean hconvention hgood hgood' hurl hsame
  have hcounted := counted_joined hclean convention p
  rw [join_relative hq hsame hgood', join_relative (hp.append hq.noNull) hconvention hgood, hplain]
  have hpop : popIfEmpty (joinedSegments convention u p) = joinedSegments convention u p := popIfEmpty_of_clean hcounted.1
  have hdepth : (nonEmpty (joinedSegments convention u p)).length =
      ((components convention p).foldl (joinComponent c (anchorDepth convention))
        (popIfEmpty u.url.segments, (nonEmpty u.url.segments).length)).2 := by
    have hall : nonEmpty (joinedSegments convention u p) = joinedSegments convention u p := nonEmpty_of_clean hcounted.1
    rw [hall]
    exact hcounted.2.symm
  unfold joinedSegments
  rw [components_append, List.foldl_append, hplain]
  rw [hpop, hdepth]
  rfl

/-- **The anchor stays**: the host, and the drive or the share. -/
theorem join_anchored {u : PathUri c} (hconvention : u.inferPathConvention = some convention)
    (hrelative : fromAbsoluteNativePath c path convention = none) (hv : u.join path = .ok v) :
    v.url.host = u.url.host ∧ (nonEmpty u.url.segments).take (anchorDepth convention) <+: nonEmpty v.url.segments := by
  unfold PathUri.join at hv
  split at hv
  · cases hv
  · split at hv
    · cases hv
      exact ⟨rfl, List.take_prefix _ _⟩
    · rw [hconvention] at hv
      dsimp only at hv
      rw [hrelative] at hv
      dsimp only at hv
      split at hv
      · cases hv
      · split at hv
        · cases hv
        next hsome =>
          have hgood : decodeBadPathUri c u.url = none := by simpa using hsome
          obtain ⟨-, hurl⟩ := tryFrom_eq_ok.1 hv
          obtain ⟨A, hanchored, htake, hcanonical⟩ := PathUri.anchored_start hconvention hgood
          rw [hurl, htake]
          have hstart : ∀ (root : Bool), Anchored (anchorDepth convention) A
              (if root then popToAnchor (anchorDepth convention) (popIfEmpty u.url.segments) (nonEmpty u.url.segments).length
                else (popIfEmpty u.url.segments, (nonEmpty u.url.segments).length)) := by
            intro root
            split
            · exact hanchored.popToAnchor
            · exact hanchored
          have hjoined := (hstart (decide (convention = .windows) && windowsRootRelative path)).join (c := c)
            (components convention path)
          obtain ⟨rest, hrest, -⟩ := hjoined
          rw [hrest]
          cases convention with
          | windows =>
            rw [hcanonical rfl]
            exact ⟨rfl, nonEmpty_append A rest ▸ List.prefix_append _ _⟩
          | posix =>
            have hnil : nonEmpty A = [] := htake.symm
            rw [hnil]
            exact ⟨u.canonical_host _, List.nil_prefix⟩

end Codex.Paths
