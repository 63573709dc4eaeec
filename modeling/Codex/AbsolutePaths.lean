/-
Absolute paths and roots. An absolute path is its root with the rest joined to it,
up to a separator at the end (`Root.followed`): the loop that normalises the
components of an absolute path and the one that joins them keep alike segments
(`Alike`), one the texts and the other what `url` writes for them.

Source: utils/path-uri/src/lib.rs, absolute_path_normalization.rs.
-/
import Codex.PathJoining

namespace Codex.Paths

variable {c : Crates}

open PathUri

/-! ## The two loops -/

/-- The loop of an absolute path and that of a join to its root, which has the anchor `Q` for the segments `P`. -/
structure Alike (anchor : Nat) (P Q rest : List Text) (n : Normalizing) (place : List Text × Nat) : Prop where
  normalized : n.normalizedSegments = P ++ rest
  joined : place.1 = Q ++ rest.map (encodeSegment c)
  depth : n.depth = place.2
  bound : n.depth ≤ anchor + rest.length
  clean : ∀ segment ∈ rest, segment ≠ [] ∧ '\x00' ∉ segment

variable {P Q segments : List Text} {host : Option Text} {r : Text} {letter separator : Char} {share : Text}

theorem Alike.step {anchor : Nat} {rest n place}
    (h : Alike (c := c) anchor P Q rest n place) {component : Text} (hnull : '\x00' ∉ component) :
    ∃ rest', Alike (c := c) anchor P Q rest' (n.step anchor component) (joinComponent c anchor place component) := by
  obtain ⟨hnormalized, hjoined, hdepth, hbound, hclean⟩ := h
  unfold Normalizing.step PathUri.joinComponent
  by_cases hnil : component = []
  · rw [if_pos hnil, if_pos (.inl hnil)]
    exact ⟨rest, hnormalized, hjoined, hdepth, hbound, hclean⟩
  · rw [if_neg hnil]
    by_cases hdot : component = ['.']
    · rw [if_pos hdot, if_pos (.inr hdot)]
      exact ⟨rest, hnormalized, hjoined, hdepth, hbound, hclean⟩
    · rw [if_neg hdot, if_neg (not_or.2 ⟨hnil, hdot⟩)]
      by_cases hparent : component = ['.', '.']
      · rw [if_pos hparent, if_pos hparent, ← hdepth]
        by_cases hdeep : n.depth > anchor
        · rw [if_pos hdeep, if_pos hdeep]
          have hne : rest ≠ [] := by
            rintro rfl
            rw [List.length_nil] at hbound
            omega
          refine ⟨rest.dropLast, ?_, ?_, rfl, ?_, fun segment hmem => hclean segment ((List.dropLast_sublist _).mem hmem)⟩
          · exact hnormalized ▸ List.dropLast_append_of_ne_nil hne
          · dsimp only
            rw [hjoined, List.dropLast_append_of_ne_nil (by simpa using hne), List.map_dropLast]
          · rw [List.length_dropLast]
            dsimp only
            omega
        · rw [if_neg hdeep, if_neg hdeep]
          exact ⟨rest, hnormalized, hjoined, hdepth, hbound, hclean⟩
      · rw [if_neg hparent, if_neg hparent, push_of_ne hnil]
        refine ⟨rest ++ [component], ?_, ?_, by rw [hdepth], ?_, ?_⟩
        · dsimp only
          rw [hnormalized, List.append_assoc]
        · dsimp only
          rw [hjoined, List.map_append, List.append_assoc]
          rfl
        · rw [List.length_append, List.length_singleton]
          dsimp only
          omega
        · refine List.forall_mem_append.2 ⟨hclean, ?_⟩
          intro segment hmem
          rw [List.mem_singleton.1 hmem]
          exact ⟨hnil, hnull⟩

theorem Alike.foldl {anchor : Nat} {rest : List Text} {n : Normalizing} {place : List Text × Nat}
    (h : Alike (c := c) anchor P Q rest n place) {components : List Text}
    (hnull : ∀ component ∈ components, '\x00' ∉ component) :
    ∃ rest', Alike (c := c) anchor P Q rest' (components.foldl (Normalizing.step anchor) n)
      (components.foldl (joinComponent c anchor) place) := by
  induction components generalizing rest n place with
  | nil => exact ⟨rest, h⟩
  | cons component components ih =>
    obtain ⟨rest', h'⟩ := h.step (hnull component List.mem_cons_self)
    exact ih h' fun component' hmem => hnull component' (List.mem_cons_of_mem _ hmem)

theorem foldl_push (done : List Text) (h : ∀ segment ∈ segments, segment ≠ []) :
    segments.foldl (push c) done = done ++ segments.map (encodeSegment c) := by
  induction segments generalizing done with
  | nil => exact (List.append_nil _).symm
  | cons segment segments ih =>
    rw [List.foldl_cons, push_of_ne (h segment List.mem_cons_self), ih _ fun s hs => h s (List.mem_cons_of_mem _ hs),
      List.append_assoc]
    rfl

/-- The segments of an absolute path's URL, up to an empty one at the end. -/
theorem pathUriFromSegments_spec {convention urlHost kept} (hhost : hostOf c host = some urlHost)
    (hkept : (segments.foldl (Normalizing.step (anchorDepth convention)) {}).normalizedSegments = kept)
    (hclean : ∀ segment ∈ kept, segment ≠ [] ∧ '\x00' ∉ segment) :
    ∃ u tail, pathUriFromSegments c convention host segments = some u ∧ (tail = [] ∨ tail = [[]]) ∧
      decodeBadPathUri c u.url = none ∧
      u.url = canonical { host := urlHost, segments := kept.map (encodeSegment c) ++ tail } := by
  have hpush := foldl_push (c := c) [] fun segment hmem => (hclean segment hmem).1
  rw [List.nil_append] at hpush
  have hpushed : ∀ trailing : Bool, ∃ tail : List Text, (tail = [] ∨ tail = [[]]) ∧
      (if trailing then kept ++ [[]] else kept).foldl (push c) [] = kept.map (encodeSegment c) ++ tail := by
    intro trailing
    split
    · rw [List.foldl_append, hpush, List.foldl_cons, List.foldl_nil, push]
      split
      next hroot => exact ⟨[], .inl rfl, by rw [hroot.1]; rfl⟩
      next => exact ⟨[[]], .inr rfl, rfl⟩
    · exact ⟨[], .inl rfl, by rw [hpush, List.append_nil]⟩
  unfold pathUriFromSegments
  rw [hhost]
  simp only [Option.bind_eq_bind, Option.bind_some]
  rw [hkept]
  obtain ⟨tail, htail, heq⟩ := hpushed _
  rw [heq]
  have hnull : NullFree (kept.map (encodeSegment c) ++ tail) := by
    refine List.forall_mem_append.2 ⟨?_, ?_⟩
    · intro segment hmem
      obtain ⟨raw, hraw, rfl⟩ := List.mem_map.1 hmem
      exact null_encodeSegment (hclean raw hraw).2
    · rcases htail with rfl | rfl
      · exact List.forall_mem_nil _
      · intro segment hmem
        rw [List.mem_singleton.1 hmem]
        rfl
  obtain ⟨u, hu, hurl⟩ := tryFrom_of_nullFree c { host := urlHost, segments := kept.map (encodeSegment c) ++ tail } hnull
  refine ⟨u, tail, by rw [hu]; rfl, htail, ?_, hurl⟩
  rw [hurl]
  exact goodPath_of_nullFree c _ hnull

theorem normalizeDrive_concat (segments : List Text) : normalizeDrive (segments ++ [[]]) = normalizeDrive segments ++ [[]] := by
  rcases split_first segments with hnone | ⟨E, first, rest, rfl, hE, hfirst⟩
  · induction segments with
    | nil => rfl
    | cons segment segments ih =>
      by_cases hnil : segment = []
      · subst hnil
        rw [List.cons_append, normalizeDrive_nil, normalizeDrive_nil, ih hnone]
        rfl
      · rw [nonEmpty, List.filter_cons_of_pos (by simpa using hnil)] at hnone
        exact absurd hnone (List.cons_ne_nil _ _)
  · rw [List.append_assoc, List.cons_append, normalizeDrive_split hE hfirst, normalizeDrive_split hE hfirst,
      List.append_assoc, List.cons_append]

theorem normalizeDrive_clean (h : ∀ segment ∈ segments, segment ≠ []) :
    ∀ segment ∈ normalizeDrive segments, segment ≠ [] := by
  cases segments with
  | nil => exact h
  | cons first rest =>
    obtain ⟨hfirst, hrest⟩ := List.forall_mem_cons.1 h
    rw [normalizeDrive_cons hfirst]
    refine List.forall_mem_cons.2 ⟨?_, hrest⟩
    split
    · simpa using hfirst
    · exact hfirst

def SameUpToTrailing (u v : Url) : Prop := u.host = v.host ∧ popIfEmpty u.segments = popIfEmpty v.segments

theorem canonical_trailing {tail} (h : ∀ segment ∈ segments, segment ≠ [])
    (htail : tail = [] ∨ tail = [[]]) :
    SameUpToTrailing (canonical { host, segments := segments ++ tail }) (canonical { host, segments }) := by
  rcases htail with rfl | rfl
  · rw [List.append_nil]
    exact ⟨rfl, rfl⟩
  · unfold canonical withoutLocalhostAuthority withNormalizedWindowsDriveLetter SameUpToTrailing
    split
    · refine ⟨rfl, ?_⟩
      show popIfEmpty (normalizeDrive (segments ++ [[]])) = popIfEmpty (normalizeDrive segments)
      rw [normalizeDrive_concat, popIfEmpty_concat, popIfEmpty_of_clean (normalizeDrive_clean h)]
    · dsimp only
      split
      · refine ⟨rfl, ?_⟩
        rw [popIfEmpty_concat, popIfEmpty_of_clean h]
      · refine ⟨rfl, ?_⟩
        rw [normalizeDrive_concat, popIfEmpty_concat, popIfEmpty_of_clean (normalizeDrive_clean h)]

/-- What an absolute path's URL has at its root: `Q`, where the path has the segments `P`. -/
structure Rooted (c : Crates) (convention : PathConvention) (urlHost : Option Text) (P Q : List Text) : Prop where
  depth : P.length = anchorDepth convention
  length : Q.length = P.length
  plain : ∀ segment ∈ P, segment ≠ [] ∧ segment ≠ ['.'] ∧ segment ≠ ['.', '.'] ∧ '\x00' ∉ segment
  clean : ∀ segment ∈ Q, segment ≠ []
  canonical : ∀ segments, canonical { host := urlHost, segments := P.map (encodeSegment c) ++ segments } =
    canonical { host := urlHost, segments := Q ++ segments }
  root : ∀ tail, tail = [] ∨ tail = [[]] → Paths.canonical { host := urlHost, segments := Q ++ tail } =
    { host := urlHost, segments := Q ++ tail }
  infer : (if urlHost.isSome ∨ Q.head?.any isWindowsDriveUriSegment then some PathConvention.windows else some .posix) =
    some convention

theorem Rooted.steps (anchor : Nat)
    (hplain : ∀ segment ∈ P, segment ≠ [] ∧ segment ≠ ['.'] ∧ segment ≠ ['.', '.'] ∧ '\x00' ∉ segment)
    (n : Normalizing) :
    (P.foldl (Normalizing.step anchor) n).normalizedSegments = n.normalizedSegments ++ P ∧
      (P.foldl (Normalizing.step anchor) n).depth = n.depth + P.length := by
  induction P generalizing n with
  | nil => exact ⟨(List.append_nil _).symm, rfl⟩
  | cons segment P ih =>
    obtain ⟨⟨hnil, hdot, hparent, -⟩, hrest⟩ := List.forall_mem_cons.1 hplain
    obtain ⟨hsegments, hdepth⟩ := ih hrest (n.step anchor segment)
    have hstep : n.step anchor segment = {
        normalizedSegments := n.normalizedSegments ++ [segment]
        depth := n.depth + 1
        hasTrailingSeparator := false } := by
      rw [Normalizing.step, if_neg hnil, if_neg hdot, if_neg hparent]
    rw [List.foldl_cons, hsegments, hdepth, hstep]
    refine ⟨by rw [List.append_assoc]; rfl, ?_⟩
    rw [List.length_cons]
    dsimp only
    omega

/-- The URI of a root with a path after it is the URI of the root with the path joined to it. -/
theorem Rooted.join {convention : PathConvention} {urlHost : Option Text} {tail : List Text}
    (h : Rooted c convention urlHost P Q) (hhost : hostOf c host = some urlHost) (hr : Relative convention r)
    (htail : tail = [] ∨ tail = [[]]) :
    ∃ u v w, pathUriFromSegments c convention host (P ++ components convention r) = some u ∧
      pathUriFromSegments c convention host (P ++ tail) = some v ∧ v.join r = .ok w ∧ SameUpToTrailing u.url w.url := by
  obtain ⟨hsegments, hdepth⟩ := Rooted.steps (anchorDepth convention) h.plain {}
  rw [List.nil_append] at hsegments
  rw [Nat.zero_add] at hdepth
  have hplain : ∀ segment ∈ P, segment ≠ [] ∧ '\x00' ∉ segment := fun segment hmem =>
    ⟨(h.plain segment hmem).1, (h.plain segment hmem).2.2.2⟩
  have hroot : ((P ++ tail).foldl (Normalizing.step (anchorDepth convention)) {}).normalizedSegments = P := by
    rw [List.foldl_append]
    rcases htail with rfl | rfl <;> exact hsegments
  obtain ⟨v, tail₁, hv, htail₁, hgood, hvurl⟩ := pathUriFromSegments_spec hhost hroot hplain
  rw [h.canonical, h.root tail₁ htail₁] at hvurl
  have hpop : popIfEmpty v.url.segments = Q := by
    rw [hvurl]
    rcases htail₁ with rfl | rfl
    · rw [List.append_nil, popIfEmpty_of_clean h.clean]
    · exact popIfEmpty_concat Q
  have hnonEmpty : nonEmpty v.url.segments = Q := by
    rw [← nonEmpty_popIfEmpty, hpop, nonEmpty_of_clean h.clean]
  have hconvention : v.inferPathConvention = some convention := by
    rw [PathUri.infer_eq hgood, hnonEmpty, hvurl]
    exact h.infer
  obtain ⟨w, hw, hwurl, -⟩ := join_relative_ok hr hconvention hgood
  have hstart : Alike (c := c) (anchorDepth convention) P Q [] (P.foldl (Normalizing.step (anchorDepth convention)) {})
      (Q, Q.length) :=
    ⟨by rw [hsegments, List.append_nil], (List.append_nil _).symm, by rw [hdepth, h.length],
      by rw [hdepth, h.depth]; rfl, List.forall_mem_nil _⟩
  obtain ⟨rest, hrest⟩ := hstart.foldl hr.components_noNull
  have hjoined : joinedSegments convention v r = Q ++ rest.map (encodeSegment c) := by
    unfold joinedSegments
    rw [hpop, hnonEmpty]
    exact hrest.joined
  have hkept : ((P ++ components convention r).foldl (Normalizing.step (anchorDepth convention)) {}).normalizedSegments =
      P ++ rest := by
    rw [List.foldl_append]
    exact hrest.normalized
  obtain ⟨u, tail₂, hu, htail₂, -, huurl⟩ :=
    pathUriFromSegments_spec hhost hkept (List.forall_mem_append.2 ⟨hplain, hrest.clean⟩)
  refine ⟨u, v, w, hu, hv, hw, ?_⟩
  rw [huurl, hwurl, hjoined, hvurl, List.map_append, List.append_assoc, h.canonical, ← List.append_assoc]
  refine canonical_trailing (List.forall_mem_append.2 ⟨h.clean, ?_⟩) htail₂
  intro segment hmem
  obtain ⟨raw, hraw, rfl⟩ := List.mem_map.1 hmem
  exact mt encodeSegment_eq_nil.1 (hrest.clean raw hraw).1

/-! ## Roots -/

/-- The root an absolute path text starts with, its separators among the two that Windows has. -/
inductive Root where
  | posix
  | drive (letter separator : Char)
  | unc (first second : Char) (host : Text) (third : Char) (share : Text) (fourth : Char)

namespace Root

def convention : Root → PathConvention
  | posix => .posix
  | drive .. | unc .. => .windows

def text : Root → Text
  | posix => ['/']
  | drive letter separator => [letter, ':', separator]
  | unc first second host third share fourth => first :: second :: host ++ third :: share ++ [fourth]

/-- The root without the separator at its end, where it is one without it. -/
def bare : Root → Text
  | unc first second host third share _ => first :: second :: host ++ third :: share
  | root => root.text

/-- A drive letter, or a host that is accepted and no device namespace, and a share other than `.` and `..`. -/
def Accepted (c : Crates) : Root → Prop
  | posix => True
  | drive letter separator => letter.isAlpha = true ∧ isWindowsSeparator separator = true
  | unc first second host third share fourth =>
    (∀ separator ∈ [first, second, third, fourth], isWindowsSeparator separator = true) ∧
      (host ≠ [] ∧ host ≠ ['.'] ∧ host ≠ ['?'] ∧ '\x00' ∉ host ∧ (∀ ch ∈ host, isWindowsSeparator ch = false) ∧
        (c.setHost host).isSome) ∧
      (share ≠ [] ∧ share ≠ ['.'] ∧ share ≠ ['.', '.'] ∧ ∀ ch ∈ share, isWindowsSeparator ch = false)

/-- The host is another than the local one, and the share has no null in it. -/
def Remote (c : Crates) : Root → Prop
  | posix | drive .. => True
  | unc _ _ host _ share _ => c.setHost host ≠ some "localhost".toList ∧ '\x00' ∉ share

end Root

theorem not_separator_of_alpha (h : letter.isAlpha = true) :
    isWindowsSeparator letter = false ∧ letter ≠ '\x00' :=
  isAlpha_induction (P := fun letter => isWindowsSeparator letter = false ∧ letter ≠ '\x00') (by decide +kernel) h

theorem separator_ne (h : isWindowsSeparator separator = true) :
    separator ≠ ':' ∧ separator ≠ '\x00' ∧ separator.isAlpha = false := by
  rw [isWindowsSeparator, Bool.or_eq_true, decide_eq_true_eq, decide_eq_true_eq] at h
  rcases h with rfl | rfl <;> decide

theorem canonical_none (segments : List Text) :
    canonical { host := none, segments } = { host := none, segments := normalizeDrive segments } := rfl

theorem canonical_remote {host : Text} (h : host ≠ "localhost".toList) (segments : List Text) :
    canonical { host := some host, segments } = { host := some host, segments } := by
  unfold canonical withoutLocalhostAuthority withNormalizedWindowsDriveLetter
  rw [if_neg fun heq => h (Option.some.inj heq)]
  rfl

theorem hostOf_none : hostOf c none = some none := rfl

theorem rooted_posix : Rooted c .posix none [] [] where
  depth := rfl
  length := rfl
  plain := List.forall_mem_nil _
  clean := List.forall_mem_nil _
  canonical := fun _ => rfl
  root := by
    rintro tail (rfl | rfl) <;> rfl
  infer := rfl

theorem rooted_drive (h : letter.isAlpha = true) :
    Rooted c .windows none [[letter, ':']] [[letter.toUpper, ':']] := by
  obtain ⟨hupper, hagain⟩ := toUpper_drive h
  have hdrive : ∀ {d : Char}, d.isAlpha = true → ∀ segments,
      canonical { host := none, segments := [d, ':'] :: segments } =
        { host := none, segments := [d.toUpper, ':'] :: segments } := by
    intro d hd segments
    rw [canonical_none, normalizeDrive_cons (List.cons_ne_nil _ _), if_pos (isWindowsDriveUriSegment_iff.2 ⟨d, rfl, hd⟩)]
    rfl
  refine ⟨rfl, rfl, ?_, ?_, ?_, ?_, ?_⟩
  · intro segment hmem
    rw [List.mem_singleton.1 hmem]
    refine ⟨List.cons_ne_nil _ _, by simp, by simp, ?_⟩
    rw [List.mem_cons, List.mem_singleton]
    rintro (hnull | hnull)
    · exact (not_separator_of_alpha h).2 hnull.symm
    · exact absurd hnull (by decide)
  · intro segment hmem
    rw [List.mem_singleton.1 hmem]
    exact List.cons_ne_nil _ _
  · intro segments
    rw [List.map_singleton, encodeSegment_drive h, List.singleton_append, List.singleton_append, hdrive h, hdrive hupper,
      hagain]
  · intro tail _
    rw [List.singleton_append, hdrive hupper, hagain]
  · exact if_pos (.inr (isWindowsDriveUriSegment_iff.2 ⟨_, rfl, hupper⟩))

theorem rooted_unc {host : Text} (hhost : host ≠ "localhost".toList)
    (hshare : share ≠ [] ∧ share ≠ ['.'] ∧ share ≠ ['.', '.'] ∧ '\x00' ∉ share) :
    Rooted c .windows (some host) [share] [encodeSegment c share] where
  depth := rfl
  length := rfl
  plain := by
    intro segment hmem
    rw [List.mem_singleton.1 hmem]
    exact hshare
  clean := by
    intro segment hmem
    rw [List.mem_singleton.1 hmem]
    exact mt encodeSegment_eq_nil.1 hshare.1
  canonical := fun _ => rfl
  root := fun tail _ => canonical_remote hhost _
  infer := rfl

/-! ### The texts of the roots -/

theorem parse_posix (h : '\x00' ∉ r) :
    fromAbsoluteNativePath c ('/' :: r) .posix = pathUriFromSegments c .posix none (components .posix r) :=
  if_neg h

theorem parse_drive (hletter : letter.isAlpha = true)
    (hseparator : isWindowsSeparator separator = true) (hnull : '\x00' ∉ r) :
    fromAbsoluteNativePath c (letter :: ':' :: separator :: r) .windows =
      pathUriFromSegments c .windows none ([letter, ':'] :: components .windows r) := by
  obtain ⟨hnot, hne⟩ := not_separator_of_alpha hletter
  have hnamespace : usesNamespace (letter :: ':' :: separator :: r) = false := by
    unfold usesNamespace
    split
    next heq =>
      rw [← (List.cons.inj heq).1, hnot]
      rfl
    next => rfl
  have htext : '\x00' ∉ letter :: ':' :: separator :: r := by
    rw [List.mem_cons, List.mem_cons, List.mem_cons]
    rintro (h | h | h | h)
    · exact hne h.symm
    · exact absurd h (by decide)
    · exact (separator_ne hseparator).2.1 h.symm
    · exact hnull h
  unfold fromAbsoluteNativePath parseWindowsPath
  rw [hnamespace, if_neg (by simpa using htext), components_eq]
  refine if_pos ?_
  rw [hletter, hseparator]
  rfl

theorem parse_unc {first second third : Char} {host rest : Text} {parts}
    (hfirst : isWindowsSeparator first = true) (hsecond : isWindowsSeparator second = true)
    (hthird : isWindowsSeparator third = true) (hhost : host ≠ [] ∧ host ≠ ['.'] ∧ host ≠ ['?'])
    (hplain : ∀ ch ∈ host, isWindowsSeparator ch = false) (hnull : '\x00' ∉ host ++ rest) (hshare : share ≠ [])
    (hparts : rest.splitOnP isWindowsSeparator = share :: parts) {u}
    (hu : pathUriFromSegments c .windows (some host) (share :: parts) = some u) :
    fromAbsoluteNativePath c (first :: second :: host ++ third :: rest) .windows = some u := by
  have hnamespace : usesNamespace (first :: second :: host ++ third :: rest) = false := by
    obtain ⟨kind, tail, rfl⟩ := List.exists_cons_of_ne_nil hhost.1
    cases tail with
    | nil =>
      have hkind : (kind = '.' || kind = '?') = false := by simpa using hhost.2
      simp only [usesNamespace, List.cons_append, List.nil_append]
      rw [hkind, Bool.and_false]
    | cons ch tail =>
      have hch : isWindowsSeparator ch = false := hplain ch (by simp)
      simp only [usesNamespace, List.cons_append]
      rw [hch, Bool.and_false, Bool.false_and]
  have htext : '\x00' ∉ first :: second :: host ++ third :: rest := by
    rw [List.mem_append, not_or] at hnull
    rw [List.cons_append, List.cons_append, List.mem_cons, List.mem_cons, List.mem_append, List.mem_cons]
    rintro (h | h | h | h | h)
    · exact (separator_ne hfirst).2.1 h.symm
    · exact (separator_ne hsecond).2.1 h.symm
    · exact hnull.1 h
    · exact (separator_ne hthird).2.1 h.symm
    · exact hnull.2 h
  have hsplit : (host ++ third :: rest).splitOnP isWindowsSeparator = host :: share :: parts := by
    rw [List.splitOnP_append_cons_of_forall_mem hplain third hthird, hparts]
  have hunc : parseUncPath c (first :: second :: host ++ third :: rest) = some u := by
    unfold parseUncPath
    simp only [List.cons_append, hfirst, hsecond, Bool.and_self, if_true, hsplit]
    rw [if_neg (not_or.2 ⟨hhost.1, hshare⟩), hu]
    rfl
  unfold fromAbsoluteNativePath parseWindowsPath
  dsimp only
  rw [hnamespace, if_neg (by simpa using htext)]
  split
  next heq => exact absurd (List.cons.inj (List.cons.inj heq).2).1 (separator_ne hsecond).1
  next => exact hunc

/-! ### What follows a root -/

/-- The URI of the root and a path after it is that of the root with the path joined, up to a separator at the end. -/
def FollowsRoot (c : Crates) (root : Root) (r : Text) : Prop :=
  ∃ u, fromAbsoluteNativePath c (root.text ++ r) root.convention = some u ∧
    ∀ base, base = root.text ∨ base = root.bare → ∃ v w, fromAbsoluteNativePath c base root.convention = some v ∧
      v.join r = .ok w ∧ SameUpToTrailing u.url w.url

theorem posix_followed (hr : Relative .posix r) : FollowsRoot c .posix r := by
  obtain ⟨u, v, w, hu, hv, hw, hsame⟩ :=
    (rooted_posix (c := c)).join hostOf_none hr (.inr rfl)
  refine ⟨u, (parse_posix hr.noNull).trans hu, ?_⟩
  rintro base (rfl | rfl) <;> exact ⟨v, w, (parse_posix List.not_mem_nil).trans hv, hw, hsame⟩

theorem drive_followed (h : (Root.drive letter separator).Accepted c)
    (hr : Relative .windows r) : FollowsRoot c (.drive letter separator) r := by
  obtain ⟨hletter, hseparator⟩ := h
  obtain ⟨u, v, w, hu, hv, hw, hsame⟩ := (rooted_drive (c := c) hletter).join hostOf_none hr (.inr rfl)
  refine ⟨u, (parse_drive hletter hseparator hr.noNull).trans hu, ?_⟩
  rintro base (rfl | rfl) <;>
    exact ⟨v, w, (parse_drive hletter hseparator List.not_mem_nil).trans hv, hw, hsame⟩

theorem unc_followed {first second third fourth : Char} {host : Text}
    (h : (Root.unc first second host third share fourth).Accepted c)
    (hremote : (Root.unc first second host third share fourth).Remote c) (hr : Relative .windows r) :
    FollowsRoot c (.unc first second host third share fourth) r := by
  obtain ⟨hseparators, ⟨hne, hdot, hquestion, hhostNull, hhostPlain, hset⟩, hshare, hshareDot, hshareParent, hsharePlain⟩ := h
  obtain ⟨hlocal, hshareNull⟩ := hremote
  obtain ⟨hfirst, hsecond, hthird, hfourth⟩ : isWindowsSeparator first = true ∧ isWindowsSeparator second = true ∧
      isWindowsSeparator third = true ∧ isWindowsSeparator fourth = true := by simpa using hseparators
  obtain ⟨urlHost, hurlHost⟩ := Option.isSome_iff_exists.1 hset
  have hhost : hostOf c (some host) = some (some urlHost) := by
    rw [hostOf, hurlHost]
    rfl
  have hremote : urlHost ≠ "localhost".toList := fun heq => hlocal (heq ▸ hurlHost)
  have hrooted : Rooted c .windows (some urlHost) [share] [encodeSegment c share] := rooted_unc hremote ⟨hshare, hshareDot, hshareParent, hshareNull⟩
  have hafter : ∀ text : Text, '\x00' ∉ text → (share ++ fourth :: text).splitOnP isWindowsSeparator =
      share :: components .windows text ∧ '\x00' ∉ host ++ (share ++ fourth :: text) := by
    intro text htext
    refine ⟨by rw [List.splitOnP_append_cons_of_forall_mem hsharePlain fourth hfourth, components_eq]; rfl, ?_⟩
    rw [List.mem_append, List.mem_append, List.mem_cons]
    rintro (hnull | hnull | hnull | hnull)
    · exact hhostNull hnull
    · exact hshareNull hnull
    · exact (separator_ne hfourth).2.1 hnull.symm
    · exact htext hnull
  have hparse : ∀ {rest : Text} {parts : List Text} {u : PathUri c}, '\x00' ∉ host ++ rest →
      rest.splitOnP isWindowsSeparator = share :: parts →
      pathUriFromSegments c .windows (some host) (share :: parts) = some u →
      fromAbsoluteNativePath c (first :: second :: host ++ third :: rest) .windows = some u := fun hnull hparts hu =>
    parse_unc hfirst hsecond hthird ⟨hne, hdot, hquestion⟩ hhostPlain hnull hshare hparts hu
  have htext : ∀ text, (Root.unc first second host third share fourth).text ++ text =
      first :: second :: host ++ third :: (share ++ fourth :: text) := by simp [Root.text]
  obtain ⟨u, v, w, hu, hv, hw, hsame⟩ := hrooted.join hhost hr (.inr rfl)
  obtain ⟨hsplit, hnull⟩ := hafter r hr.noNull
  refine ⟨u, (htext r).symm ▸ hparse hnull hsplit hu, ?_⟩
  rintro base (rfl | rfl)
  · obtain ⟨hsplit, hnull⟩ := hafter [] List.not_mem_nil
    refine ⟨v, w, ?_, hw, hsame⟩
    rw [← List.append_nil (Root.text _), htext]
    exact hparse hnull hsplit hv
  · obtain ⟨u', v', w', hu', hv', hw', hsame'⟩ := hrooted.join hhost hr (.inl rfl)
    have hbare := hparse (List.not_mem_append hhostNull hshareNull) (List.splitOnP_eq_singleton hsharePlain) hv'
    rw [Option.some.inj (hu'.symm.trans hu)] at hsame'
    exact ⟨v', w', hbare, hw', hsame'⟩

/-- **A root and what follows it.** -/
theorem Root.followed {root : Root} (h : root.Accepted c) (hremote : root.Remote c)
    (hr : Relative root.convention r) : FollowsRoot c root r := by
  cases root with
  | posix => exact posix_followed hr
  | drive letter separator => exact drive_followed h hr
  | unc first second host third share fourth => exact unc_followed h hremote hr

/-! ### Roots that nothing follows -/

/-! ### Resolution -/

/-- How paths resolve: two joins are one, what follows one of the roots is joined to it, and the anchor stays. -/
structure Resolves (c : Crates) (roots : Root → Prop) : Prop where
  compose : ∀ {u v : PathUri c} {convention : PathConvention} {p q : Text}, NoInteriorEmpty u.url.segments →
    decodeBadPathUri c u.url = none → u.inferPathConvention = some convention → Relative convention p →
    Relative convention q → u.join p = .ok v → v.inferPathConvention = some convention →
    v.join q = u.join (p ++ '/' :: q)
  followed : ∀ {root : Root} {r : Text}, root.Accepted c → roots root → Relative root.convention r → FollowsRoot c root r
  anchored : ∀ {u v : PathUri c} {convention : PathConvention} {path : Text}, u.inferPathConvention = some convention →
    fromAbsoluteNativePath c path convention = none → u.join path = .ok v →
    v.url.host = u.url.host ∧ (nonEmpty u.url.segments).take (anchorDepth convention) <+: nonEmpty v.url.segments

theorem resolves_remote (c : Crates) : Resolves c (Root.Remote c) where
  compose := join_join
  followed := Root.followed
  anchored := join_anchored

theorem forall_byte {P : UInt8 → Prop} (h : ∀ n : Fin 256, P (UInt8.ofNat n.val)) (b : UInt8) : P b := by
  have := h ⟨b.toNat, b.toNat_lt⟩
  rwa [UInt8.ofNat_toNat] at this

/-- The bytes that `url` keeps in a segment of a `file:` URL, and a host in lower case. -/
def sampleCrates : Crates where
  keeps b := 32 < b.toNat && b.toNat < 127 && ! "\"#%/<>?\\^".toList.contains (Char.ofNat b.toNat) && b ≠ 96 && b ≠ 123 && b ≠ 125
  keepsAscii := forall_byte (by decide +kernel)
  keepsDrive := forall_byte (by decide +kernel)
  setHost host := if host.all fun ch => ch.isAlphanum || ch = '.' || ch = '-' then some (host.map Char.toLower) else none
  encodeBase64 _ := []
  decodeBase64 _ := none

/-- To its URI, `\\localhost\share` is a POSIX path, in which `\` separates nothing. -/
theorem not_resolves_localhost : ¬ Resolves sampleCrates fun _ => True := by
  intro h
  have hfollowed : FollowsRoot sampleCrates (.unc '\\' '\\' "localhost".toList '\\' "share".toList '\\') "a\\b".toList :=
    h.followed ⟨by simp [isWindowsSeparator], ⟨by decide, by decide, by decide, by decide, by simp [isWindowsSeparator], by decide⟩,
      by decide, by decide, by decide, by simp [isWindowsSeparator]⟩ trivial
      ⟨by decide, by decide, fun _ hch => by cases hch; rfl, by decide⟩
  obtain ⟨u, hu, hbases⟩ := hfollowed
  obtain ⟨v, w, hv, hw, hsame⟩ := hbases _ (.inl rfl)
  have habsolute : (fromAbsoluteNativePath sampleCrates "\\\\localhost\\share\\a\\b".toList .windows).map PathUri.url =
      some { host := none, segments := ["share".toList, "a".toList, "b".toList] } := by decide +kernel
  have hjoined : ((fromAbsoluteNativePath sampleCrates "\\\\localhost\\share\\".toList .windows).bind fun v =>
      (v.join "a\\b".toList).toOption).map PathUri.url =
      some { host := none, segments := ["share".toList, "a%5Cb".toList] } := by decide +kernel
  have huurl : u.url = { host := none, segments := ["share".toList, "a".toList, "b".toList] } :=
    Option.some.inj ((congrArg (Option.map PathUri.url) hu).symm.trans habsolute)
  have hwurl : w.url = { host := none, segments := ["share".toList, "a%5Cb".toList] } := by
    have hbound := congrArg (fun v => (Option.bind v fun v => (PathUri.join v "a\\b".toList).toOption).map PathUri.url) hv
    dsimp only [Option.bind_some] at hbound
    rw [hw] at hbound
    exact Option.some.inj (hbound.symm.trans hjoined)
  rw [huurl, hwurl] at hsame
  exact absurd hsame.2 (by decide)

end Codex.Paths
