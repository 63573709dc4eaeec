/-
Names for a list of things, taken from a baseline where they fit. The thing at a
position gets the name the baseline has there if that fits, whether or not it has
been given out; else the first name of the baseline that fits and has not been
given out; else a new one. The rule for the place asks nothing of what came before
it, so a name may be given out twice; `nodup_iff` says exactly when it is not.
-/
import Mathlib.Data.Finset.Card

namespace GreedyReuse

variable {ι ν : Type*} [DecidableEq ι] (fits : ι → ν → Bool) (baseline : List ι)

/-- The name a thing gets after the names `used`. -/
inductive Chosen (used : List ι) (thing : ν) (name : ι) : Prop
  | inPlace (h : baseline[used.length]? = some name) (hfits : fits name thing = true)
  | found (hplace : ∀ b ∈ baseline[used.length]?, fits b thing = false)
      (h : baseline.find? (fun b => decide (b ∉ used) && fits b thing) = some name)
  | fresh (hplace : ∀ b ∈ baseline[used.length]?, fits b thing = false)
      (h : baseline.find? (fun b => decide (b ∉ used) && fits b thing) = none)
      (hbaseline : name ∉ baseline) (hused : name ∉ used)

/-- Each thing has the name it gets after those before it. -/
structure Assigns (things : List ν) (names : List ι) : Prop where
  length_eq : names.length = things.length
  chosen : ∀ q thing name, things[q]? = some thing → names[q]? = some name →
    Chosen fits baseline (names.take q) thing name

section Condition

variable (things : List ν)

def InPlace (q : Nat) (name : ι) : Prop := baseline[q]? = some name ∧ (things[q]?).any (fits name) = true

instance (q : Nat) (name : ι) : Decidable (InPlace fits baseline things q name) := inferInstanceAs (Decidable (_ ∧ _))

/-- The earlier positions whose thing fits the name, and not the baseline's name at that position. -/
def misses (q : Nat) (name : ι) : Finset Nat :=
  (Finset.range q).filter fun p =>
    (things[p]?).any (fits name) = true ∧ ∀ b ∈ baseline[p]?, ¬ InPlace fits baseline things p b

/-- The names before this one in the baseline that fit what it fits and have no place of their own earlier. -/
def waiting (q : Nat) (name : ι) : Finset ι :=
  (baseline.takeWhile fun b => decide (b ≠ name)).toFinset.filter fun b =>
    (things[q]?).any (fits b) = true ∧ ∀ p < q, ¬ InPlace fits baseline things p b

/-- No earlier thing has taken the name. -/
def Free (q : Nat) (name : ι) : Prop :=
  (∀ p < q, ¬ InPlace fits baseline things p name) ∧
    (misses fits baseline things q name).card ≤ (waiting fits baseline things q name).card

instance (q : Nat) (name : ι) : Decidable (Free fits baseline things q name) := inferInstanceAs (Decidable (_ ∧ _))

end Condition

variable {fits baseline} {things : List ν} {names : List ι}

variable {name : ι} {thing : ν} {q : Nat}

theorem mem_takeWhile_of_split {b : ι} {before after}
    (h : b ∈ (before ++ name :: after).takeWhile fun b => decide (b ≠ name)) : b ∈ before := by
  induction before with
  | nil => simp at h
  | cons a before ih =>
    by_cases ha : a = name
    · simp [ha] at h
    · rw [List.cons_append, List.takeWhile_cons_of_pos (by simpa using ha), List.mem_cons] at h
      exact h.elim (fun heq => heq ▸ List.mem_cons_self) fun h => List.mem_cons_of_mem _ (ih h)

/-- What the search finds stands before any other name it could have found. -/
theorem mem_takeWhile_of_find? {p : ι → Bool} {b : ι} (h : baseline.find? p = some b) (hname : name ∈ baseline)
    (hp : p name = true) (hne : b ≠ name) : b ∈ baseline.takeWhile fun b => decide (b ≠ name) := by
  obtain ⟨-, before, after, rfl, hbefore⟩ := List.find?_eq_some_iff_append.1 h
  have hnot : ∀ a ∈ before, a ≠ name := by
    rintro a ha rfl
    have := hbefore a ha
    simp [hp] at this
  rw [List.takeWhile_append_of_pos (by simpa using hnot), List.takeWhile_cons_of_pos (by simpa using hne)]
  simp

omit [DecidableEq ι] in
theorem mem_take {q : Nat} {name : ι} : name ∈ names.take q ↔ ∃ p < q, names[p]? = some name := by
  rw [List.mem_iff_getElem?]
  constructor
  · rintro ⟨p, hp⟩
    have hlt := (List.getElem?_eq_some_iff.1 hp).1
    rw [List.length_take] at hlt
    rw [List.getElem?_take_of_lt (by omega)] at hp
    exact ⟨p, by omega, hp⟩
  · rintro ⟨p, hlt, hp⟩
    exact ⟨p, by rw [List.getElem?_take_of_lt hlt, hp]⟩

theorem found_spec {used : List ι}
    (h : baseline.find? (fun b => decide (b ∉ used) && fits b thing) = some name) : name ∉ used ∧ fits name thing = true := by
  have hboth := List.find?_some h
  rw [Bool.and_eq_true, decide_eq_true_eq] at hboth
  exact hboth

theorem of_mem_misses {p : Nat} (hp : p ∈ misses fits baseline things q name) :
    p < q ∧ (∃ thing, things[p]? = some thing ∧ fits name thing = true) ∧
      ∀ b ∈ baseline[p]?, ¬ InPlace fits baseline things p b := by
  obtain ⟨hrange, hany, hmiss⟩ := Finset.mem_filter.1 hp
  obtain ⟨thing, hthing, hfits⟩ := (Option.any_eq_true _ _).1 hany
  exact ⟨Finset.mem_range.1 hrange, ⟨thing, hthing, hfits⟩, hmiss⟩

/-- A name that fits one thing of another name's fits all of them. -/
def Difunctional (fits : ι → ν → Bool) : Prop :=
  ∀ a b m n, fits a m = true → fits b m = true → fits a n = true → fits b n = true

namespace Assigns

theorem things_get (h : Assigns fits baseline things names) (hname : names[q]? = some name) :
    ∃ thing, things[q]? = some thing := by
  have hlt := (List.getElem?_eq_some_iff.1 hname).1
  rw [h.length_eq] at hlt
  exact ⟨things[q], List.getElem?_eq_getElem hlt⟩

theorem take_length (h : Assigns fits baseline things names) (hthing : things[q]? = some thing) :
    (names.take q).length = q := by
  have hlt := (List.getElem?_eq_some_iff.1 hthing).1
  rw [List.length_take, h.length_eq]
  omega

theorem names_get (h : Assigns fits baseline things names) (hthing : things[q]? = some thing) :
    ∃ name, names[q]? = some name := by
  have hlt := (List.getElem?_eq_some_iff.1 hthing).1
  rw [← h.length_eq] at hlt
  exact ⟨names[q], List.getElem?_eq_getElem hlt⟩

theorem get_of_inPlace (h : Assigns fits baseline things names)
    (hplace : InPlace fits baseline things q name) : names[q]? = some name := by
  obtain ⟨hbaseline, hany⟩ := hplace
  obtain ⟨thing, hthing, hfits⟩ := (Option.any_eq_true _ _).1 hany
  obtain ⟨got, hgot⟩ := h.names_get hthing
  have hlen := h.take_length hthing
  have hnot : ∀ {p : Prop}, (∀ b ∈ baseline[(names.take q).length]?, fits b thing = false) → p := by
    intro p hmiss
    rw [hlen] at hmiss
    rw [hmiss name hbaseline] at hfits
    cases hfits
  cases h.chosen q thing got hthing hgot with
  | inPlace hget hgotfits =>
    rw [hlen, hbaseline] at hget
    rw [hgot, ← hget]
  | found hmiss hfind => exact hnot hmiss
  | fresh hmiss hfind hbase hused => exact hnot hmiss

theorem fits_of_mem (h : Assigns fits baseline things names)
    (hthing : things[q]? = some thing) (hname : names[q]? = some name) (hmem : name ∈ baseline) :
    fits name thing = true := by
  cases h.chosen q thing name hthing hname with
  | inPlace hget hfits => exact hfits
  | found hmiss hfind => exact (found_spec hfind).2
  | fresh hmiss hfind hbase hused => exact absurd hmem hbase

/-- Where two things share a name, the later one has it in place. -/
theorem inPlace_of_again (h : Assigns fits baseline things names) {p : Nat} (hlt : p < q)
    (hp : names[p]? = some name) (hq : names[q]? = some name) : InPlace fits baseline things q name := by
  obtain ⟨thing, hthing⟩ := h.things_get hq
  have hused : name ∈ names.take q := mem_take.2 ⟨p, hlt, hp⟩
  cases h.chosen q thing name hthing hq with
  | inPlace hget hfits =>
    rw [h.take_length hthing] at hget
    exact ⟨hget, (Option.any_eq_true _ _).2 ⟨thing, hthing, hfits⟩⟩
  | found hmiss hfind =>
    exact absurd hused (found_spec hfind).1
  | fresh hmiss hfind hbase hnot => exact absurd hused hnot

/-- What a thing that is not in place gets: the first name that fits and is free, if there is any. -/
theorem first_of_miss (h : Assigns fits baseline things names) {got : ι}
    (hthing : things[q]? = some thing) (hgot : names[q]? = some got)
    (hmiss : ∀ b ∈ baseline[q]?, ¬ InPlace fits baseline things q b) (hname : name ∈ baseline)
    (hfits : fits name thing = true) (hused : name ∉ names.take q) :
    baseline.find? (fun b => decide (b ∉ names.take q) && fits b thing) = some got := by
  cases h.chosen q thing got hthing hgot with
  | inPlace hget hgotfits =>
    rw [h.take_length hthing] at hget
    exact absurd ⟨hget, (Option.any_eq_true _ _).2 ⟨thing, hthing, hgotfits⟩⟩ (hmiss got hget)
  | found _ hfind => exact hfind
  | fresh _ hfind _ _ =>
    have hnone := List.find?_eq_none.1 hfind name hname
    simp [hused, hfits] at hnone

/-- **A name is given out in time.** -/
theorem free_of_nodup (hdif : Difunctional fits) (h : Assigns fits baseline things names) (hnodup : names.Nodup) {q : Nat}
    {name : ι} (hplace : InPlace fits baseline things q name) : Free fits baseline things q name := by
  have hq := h.get_of_inPlace hplace
  have honce : ∀ {p p' : Nat} {b : ι}, names[p]? = some b → names[p']? = some b → p = p' := by
    intro p p' b hp hp'
    exact (List.getElem?_inj (List.getElem?_eq_some_iff.1 hp).1 hnodup).1 (hp.trans hp'.symm)
  refine ⟨?_, ?_⟩
  · intro p hlt hearlier
    have := honce (h.get_of_inPlace hearlier) hq
    omega
  · refine Finset.card_le_card_of_injOn (fun p => (names[p]?).getD name) ?_ ?_
    · intro p hp
      obtain ⟨hlt, ⟨thing, hthing, hfits⟩, hmiss⟩ := of_mem_misses hp
      obtain ⟨got, hgot⟩ := h.names_get hthing
      have hne : got ≠ name := by
        rintro rfl
        have := honce hgot hq
        omega
      have hmem := List.mem_of_getElem? hplace.1
      have hunused : name ∉ names.take p := by
        rw [mem_take]
        rintro ⟨p', hlt', hp'⟩
        have := honce hp' hq
        omega
      have hfind := h.first_of_miss hthing hgot hmiss hmem hfits hunused
      obtain ⟨last, hlast, hlastfits⟩ := (Option.any_eq_true _ _).1 hplace.2
      simp only [hgot, Option.getD_some]
      refine Finset.mem_filter.2 ⟨List.mem_toFinset.2 (mem_takeWhile_of_find? hfind hmem ?_ hne), ?_, ?_⟩
      · simp [hunused, hfits]
      · exact (Option.any_eq_true _ _).2 ⟨last, hlast, hdif name got thing last hfits (found_spec hfind).2 hlastfits⟩
      · intro p' hlt' hplace'
        have heq := honce (h.get_of_inPlace hplace') hgot
        rw [heq] at hplace'
        exact hmiss got hplace'.1 hplace'
    · intro p hp p' hp' heq
      obtain ⟨-, ⟨thing, hthing, -⟩, -⟩ := of_mem_misses hp
      obtain ⟨-, ⟨thing', hthing', -⟩, -⟩ := of_mem_misses hp'
      obtain ⟨got, hgot⟩ := h.names_get hthing
      obtain ⟨got', hgot'⟩ := h.names_get hthing'
      simp only [hgot, hgot', Option.getD_some] at heq
      exact honce hgot (heq ▸ hgot')

/-- A name that was free has not been given out: else each name that waits before it has gone to a miss of its own. -/
theorem not_earlier_of_free (hdif : Difunctional fits) (h : Assigns fits baseline things names) {p q : Nat} {name : ι}
    (hlt : p < q) (hp : names[p]? = some name) (hplace : InPlace fits baseline things q name)
    (hfree : Free fits baseline things q name) : False := by
  obtain ⟨thing, hthing⟩ := h.things_get hp
  have hmem := List.mem_of_getElem? hplace.1
  have hfits := h.fits_of_mem hthing hp hmem
  obtain ⟨last, hlast, hlastfits⟩ := (Option.any_eq_true _ _).1 hplace.2
  -- a place of its own is the name that is given out there
  have hmiss : ∀ {p' : Nat} {b : ι}, names[p']? = some b → p' < q → (∀ r < q, ¬ InPlace fits baseline things r b) →
      ∀ b' ∈ baseline[p']?, ¬ InPlace fits baseline things p' b' := by
    intro p' b hb hlt' hnot b' _ hplace'
    have heq : b' = b := Option.some.inj ((h.get_of_inPlace hplace').symm.trans hb)
    exact hnot p' hlt' (heq ▸ hplace')
  have hself : p ∈ misses fits baseline things q name :=
    Finset.mem_filter.2 ⟨Finset.mem_range.2 hlt, (Option.any_eq_true _ _).2 ⟨thing, hthing, hfits⟩, hmiss hp hlt hfree.1⟩
  have hfind : baseline.find? (fun b => decide (b ∉ names.take p) && fits b thing) = some name := by
    cases h.chosen p thing name hthing hp with
    | inPlace hget hgotfits =>
      rw [h.take_length hthing] at hget
      exact absurd ⟨hget, (Option.any_eq_true _ _).2 ⟨thing, hthing, hgotfits⟩⟩ (hfree.1 p hlt)
    | found _ hfind => exact hfind
    | fresh _ _ hbase _ => exact absurd hmem hbase
  obtain ⟨-, before, after, hsplit, hbefore⟩ := List.find?_eq_some_iff_append.1 hfind
  have hgone : ∀ b ∈ waiting fits baseline things q name, ∃ p' ∈ (misses fits baseline things q name).erase p,
      names[p']? = some b := by
    intro b hb
    obtain ⟨hstands, hany, hnot⟩ := Finset.mem_filter.1 hb
    rw [List.mem_toFinset, hsplit] at hstands
    have hstands := mem_takeWhile_of_split hstands
    obtain ⟨last', hlast', hblast⟩ := (Option.any_eq_true _ _).1 hany
    obtain rfl : last = last' := Option.some.inj (hlast.symm.trans hlast')
    have hbthing : fits b thing = true := hdif name b last thing hlastfits hblast hfits
    have htaken : b ∈ names.take p := by
      have := hbefore b hstands
      simpa [hbthing] using this
    obtain ⟨p', hlt', hb'⟩ := mem_take.1 htaken
    obtain ⟨thing', hthing'⟩ := h.things_get hb'
    have hbmem : b ∈ baseline := hsplit ▸ List.mem_append_left _ hstands
    have hfits' := hdif b name thing thing' hbthing hfits (h.fits_of_mem hthing' hb' hbmem)
    refine ⟨p', Finset.mem_erase.2 ⟨by omega, Finset.mem_filter.2 ⟨Finset.mem_range.2 (by omega), ?_, ?_⟩⟩, hb'⟩
    · exact (Option.any_eq_true _ _).2 ⟨thing', hthing', hfits'⟩
    · exact hmiss hb' (by omega) hnot
  choose place hplaces hget using hgone
  have hcard : (waiting fits baseline things q name).card ≤ ((misses fits baseline things q name).erase p).card := by
    refine Finset.card_le_card_of_injOn (fun b => if hb : b ∈ waiting fits baseline things q name then place b hb else 0) ?_ ?_
    · intro b hb
      rw [Finset.mem_coe] at hb
      simp only [hb, dite_true]
      exact hplaces b hb
    · intro b hb b' hb' heq
      rw [Finset.mem_coe] at hb hb'
      simp only [hb, hb', dite_true] at heq
      exact Option.some.inj ((hget b hb).symm.trans (heq ▸ hget b' hb'))
  have hcount := hfree.2
  rw [Finset.card_erase_of_mem hself] at hcard
  have hpos := Finset.card_pos.2 ⟨p, hself⟩
  omega

theorem nil : Assigns fits baseline ([] : List ν) [] where
  length_eq := rfl
  chosen := by simp

theorem concat (h : Assigns fits baseline things names)
    (hchosen : Chosen fits baseline names thing name) : Assigns fits baseline (things ++ [thing]) (names ++ [name]) where
  length_eq := by simp [h.length_eq]
  chosen := by
    intro q thing' name' hthing hname
    rcases Nat.lt_or_ge q names.length with hlt | hge
    · rw [List.getElem?_append_left hlt] at hname
      rw [List.getElem?_append_left (by rw [← h.length_eq]; exact hlt)] at hthing
      rw [List.take_append_of_le_length (by omega)]
      exact h.chosen q thing' name' hthing hname
    · have hq := (List.getElem?_eq_some_iff.1 hname).1
      rw [List.length_append, List.length_singleton] at hq
      obtain rfl : q = names.length := by omega
      rw [List.getElem?_concat_length] at hname
      rw [h.length_eq, List.getElem?_concat_length] at hthing
      cases hname
      cases hthing
      rwa [List.take_left]

/-- **No name is given out twice** exactly when each name that fits at its place is still free there. -/
theorem nodup_iff (hdif : Difunctional fits) (h : Assigns fits baseline things names) :
    names.Nodup ↔ ∀ q name, InPlace fits baseline things q name → Free fits baseline things q name := by
  constructor
  · intro hnodup q name hplace
    exact h.free_of_nodup hdif hnodup hplace
  · intro hfree
    rw [List.nodup_iff_getElem?_ne_getElem?]
    intro p q hlt hq heq
    obtain ⟨name, hname⟩ : ∃ name, names[q]? = some name := ⟨names[q], List.getElem?_eq_getElem hq⟩
    have hp := heq.trans hname
    have hplace := h.inPlace_of_again hlt hp hname
    exact h.not_earlier_of_free hdif hlt hp hplace (hfree q name hplace)

end Assigns

end GreedyReuse
