import Ice.Error.Message
import Mathlib.Data.List.DropRight

/-!
# The phrase that is left of a message

A message that is not blank is made of blanks, a phrase, blanks, and the rest from a full stop on
(`Parts`). What is left of it is the phrase in lower case, which is a phrase again, so that
formatting it once more changes nothing. A blank message has no character that is not blank, and
it is left as it is.
-/

set_option autoImplicit false

namespace Ice
namespace NativeCategory

variable {str lead phrase gap rest : List UInt8} {c : UInt8} {ascii : Bool}

/-! ## 1. Lower case -/

theorem toNat_tolower_of_upper (h : 65 ≤ c ∧ c ≤ 90) :
    (tolower c).toNat = c.toNat + 32 ∧ 65 ≤ c.toNat ∧ c.toNat ≤ 90 := by
  have hlow : 65 ≤ c.toNat := UInt8.le_iff_toNat_le.mp h.1
  have hhigh : c.toNat ≤ 90 := UInt8.le_iff_toNat_le.mp h.2
  refine ⟨?_, hlow, hhigh⟩
  rw [tolower, if_pos h, UInt8.toNat_add]
  exact Nat.mod_eq_of_lt (by simp; omega)

/-- Neither an upper-case letter nor what becomes of it is any of the other characters. -/
theorem tolower_eq_iff {d : UInt8} (hd : d.toNat < 65) : tolower c = d ↔ c = d := by
  by_cases h : 65 ≤ c ∧ c ≤ 90
  · obtain ⟨hlower, hlow, -⟩ := toNat_tolower_of_upper h
    rw [← UInt8.toNat_inj, ← UInt8.toNat_inj, hlower]
    omega
  · rw [tolower, if_neg h]

theorem blank_tolower (c : UInt8) : blank (tolower c) = blank c := by
  have hcr : tolower c = 13 ↔ c = 13 := tolower_eq_iff (by decide)
  have hlf : tolower c = 10 ↔ c = 10 := tolower_eq_iff (by decide)
  have hspace : tolower c = 32 ↔ c = 32 := tolower_eq_iff (by decide)
  simp only [blank, hcr, hlf, hspace]

theorem tolower_tolower (c : UInt8) : tolower (tolower c) = tolower c := by
  by_cases h : 65 ≤ c ∧ c ≤ 90
  · obtain ⟨hlower, hlow, -⟩ := toNat_tolower_of_upper h
    rw [tolower, if_neg]
    rintro ⟨-, hhigh⟩
    have hle : (tolower c).toNat ≤ 90 := UInt8.le_iff_toNat_le.mp hhigh
    omega
  · have hsame : tolower c = c := if_neg h
    rw [hsame, hsame]

theorem printable_tolower (h : 32 ≤ c ∧ c ≤ 126) : 32 ≤ tolower c ∧ tolower c ≤ 126 := by
  by_cases hupper : 65 ≤ c ∧ c ≤ 90
  · obtain ⟨hlower, hlow, hhigh⟩ := toNat_tolower_of_upper hupper
    rw [UInt8.le_iff_toNat_le, UInt8.le_iff_toNat_le, hlower]
    constructor
    · exact Nat.le_trans (by decide) (Nat.add_le_add_right hlow 32)
    · exact Nat.le_trans (Nat.add_le_add_right hhigh 32) (by decide)
  · rw [tolower, if_neg hupper]
    exact h

/-- What is the same of a character and of its lower case is kept. -/
theorem map_transform {α : Type*} {f : UInt8 → α} (hf : ∀ c, f (tolower c) = f c)
    (ascii : Bool) (str : List UInt8) : (transform ascii str).map f = str.map f := by
  induction str generalizing ascii with
  | nil => rfl
  | cons c str ih =>
    rw [transform]
    split
    · rw [List.map_cons, List.map_cons, ih, hf]
    · rw [List.map_cons, List.map_cons, ih]

theorem transform_false (str : List UInt8) : transform false str = str := by
  induction str with
  | nil => rfl
  | cons c str ih => rw [transform, if_neg fun h => Bool.false_ne_true h.1, ih]

theorem transform_transform (str : List UInt8) :
    transform true (transform true str) = transform true str := by
  induction str with
  | nil => rfl
  | cons c str ih =>
    by_cases h : 32 ≤ c ∧ c ≤ 126
    · rw [transform, if_pos ⟨rfl, h⟩, transform, if_pos ⟨rfl, printable_tolower h⟩, ih,
        tolower_tolower]
    · rw [transform, if_neg fun hc => h hc.2, transform, if_neg fun hc => h hc.2,
        transform_false, transform_false]

theorem transform_blank (h : ∀ c ∈ str, blank c = true) (ascii : Bool) :
    transform ascii str = str := by
  induction str generalizing ascii with
  | nil => rfl
  | cons c str ih =>
    have hrest := ih fun d hd => h d (List.mem_cons_of_mem c hd)
    have hc : tolower c = c := by
      have hblank := h c List.mem_cons_self
      simp only [blank, Bool.or_eq_true, decide_eq_true_eq] at hblank
      rcases hblank with (rfl | rfl) | rfl <;> decide
    rw [transform]
    split
    · rw [hrest, hc]
    · rw [hrest]

/-! ## 2. The parts of a message -/

/-- A phrase neither begins nor ends with a blank, and has no full stop. -/
structure Phrase (str : List UInt8) : Prop where
  head : some true ≠ (str.map blank).head?
  last : some true ≠ (str.map blank).getLast?
  stop : true ∉ str.map fun c => decide (c = 46)

theorem Phrase.transform (h : Phrase str) (ascii : Bool) : Phrase (transform ascii str) where
  head := by rw [map_transform blank_tolower]; exact h.head
  last := by rw [map_transform blank_tolower]; exact h.last
  stop := by
    have hstop : ∀ c, decide (tolower c = 46) = decide (c = 46) :=
      fun c => decide_eq_decide.mpr (tolower_eq_iff (by decide))
    rw [map_transform hstop]
    exact h.stop

structure Parts (str lead phrase gap rest : List UInt8) : Prop where
  whole : str = lead ++ (phrase ++ gap ++ rest)
  front : ∀ c ∈ lead, blank c = true
  middle : Phrase phrase
  back : ∀ c ∈ gap, blank c = true
  empty : phrase = [] → gap = [] ∧ rest ≠ []
  stop : rest = [] ∨ rest.head? = some 46

/-! ## 3. What is erased -/

/-- The first character with `p` is behind those without it. -/
theorem findIdx?_append_cons {p : UInt8 → Bool} (hlead : ∀ c ∈ lead, p c = false)
    (hc : p c = true) : (lead ++ c :: rest).findIdx? p = some lead.length := by
  rw [List.findIdx?_append, List.findIdx?_eq_none_iff.mpr hlead, List.findIdx?_cons, if_pos hc]
  exact congrArg some (Nat.zero_add _)

theorem eraseFront_append (hlead : ∀ c ∈ lead, blank c = true) (hc : blank c = false) :
    eraseFront (lead ++ c :: rest) = c :: rest := by
  have hfind : (lead ++ c :: rest).findIdx? (fun c => !blank c) = some lead.length :=
    findIdx?_append_cons (fun d hd => by simp [hlead d hd]) (by simp [hc])
  rw [eraseFront, hfind]
  exact List.drop_left

theorem eraseStop_append (hstop : (46 : UInt8) ∉ str) (hrest : rest = [] ∨ rest.head? = some 46) :
    eraseStop (str ++ rest) = str := by
  have hne : ∀ c ∈ str, decide (c = 46) = false :=
    fun c hc => decide_eq_false fun h => hstop (h ▸ hc)
  cases rest with
  | nil => rw [List.append_nil, eraseStop, List.findIdx?_eq_none_iff.mpr hne]
  | cons c rest =>
    have hc : c = 46 := by simpa using hrest
    rw [eraseStop, findIdx?_append_cons hne (decide_eq_true hc)]
    exact List.take_left

theorem eraseBack_append (hgap : ∀ c ∈ gap, blank c = true) (hc : blank c = false) :
    eraseBack (str ++ [c] ++ gap) = str ++ [c] := by
  have hreverse : (str ++ [c] ++ gap).reverse = gap.reverse ++ c :: str.reverse := by simp
  have hfind : (str ++ [c] ++ gap).reverse.findIdx? (fun c => !blank c) =
      some gap.reverse.length := by
    rw [hreverse]
    exact findIdx?_append_cons (fun d hd => by simp [hgap d (List.mem_reverse.mp hd)])
      (by simp [hc])
  have hpos : (str ++ [c] ++ gap).length - 1 - gap.reverse.length + 1 = (str ++ [c]).length := by
    simp only [List.length_append, List.length_reverse, List.length_singleton]
    omega
  rw [eraseBack, find_last_not_of, hfind]
  exact (congrArg (fun n => (str ++ [c] ++ gap).take n) hpos).trans List.take_left

/-- **What is left of a message.** -/
theorem Parts.format (h : Parts str lead phrase gap rest) :
    format str = transform true phrase := by
  have hstop : (46 : UInt8) ∉ phrase ++ gap := by
    intro hin
    rcases List.mem_append.mp hin with hin | hin
    · exact h.middle.stop (List.mem_map.mpr ⟨46, hin, rfl⟩)
    · exact absurd (h.back 46 hin) (by decide)
  have hfront : eraseFront str = phrase ++ gap ++ rest := by
    rw [h.whole]
    cases hphrase : phrase with
    | cons c phrase =>
      refine eraseFront_append h.front ?_
      have hhead := h.middle.head
      rw [hphrase] at hhead
      cases hc : blank c with
      | false => rfl
      | true => simp [hc] at hhead
    | nil =>
      obtain ⟨rfl, hrest⟩ := h.empty hphrase
      cases rest with
      | nil => exact absurd rfl hrest
      | cons c rest =>
        have hc : c = 46 := by simpa using h.stop
        exact eraseFront_append h.front (by rw [hc]; decide)
  have hback : eraseBack (phrase ++ gap) = phrase := by
    rcases List.eq_nil_or_concat phrase with hphrase | ⟨init, c, hphrase⟩
    · rw [hphrase, (h.empty hphrase).1]
      rfl
    · have hlast := h.middle.last
      rw [hphrase, List.concat_eq_append] at hlast ⊢
      refine eraseBack_append h.back ?_
      cases hc : blank c with
      | false => rfl
      | true => simp [hc] at hlast
  rw [NativeCategory.format, hfront, eraseStop_append hstop h.stop, hback]

/-- Nothing is erased of a blank message, and nothing of it has another case. -/
theorem format_blank (h : ∀ c ∈ str, blank c = true) : format str = str := by
  have hnone : ∀ c ∈ str, (!blank c) = false := fun c hc => by simp [h c hc]
  have hfront : eraseFront str = str := by
    rw [eraseFront, List.findIdx?_eq_none_iff.mpr hnone]
  have hstop : eraseStop str = str := by
    have hin : (46 : UInt8) ∉ str := fun hin => absurd (h 46 hin) (by decide)
    simpa using eraseStop_append hin (.inl rfl)
  have hback : eraseBack str = str := by
    have hnone' : ∀ c ∈ str.reverse, (!blank c) = false :=
      fun c hc => hnone c (List.mem_reverse.mp hc)
    rw [eraseBack, find_last_not_of, List.findIdx?_eq_none_iff.mpr hnone']
    rfl
  rw [NativeCategory.format, hfront, hstop, hback]
  exact transform_blank h true

/-- What stands before the full stop of a message that begins with `c`, without the blanks at its
    end. -/
theorem phrase_rdropWhile {sentence : List UInt8} (hc : blank c = false)
    (hfirst : ∀ d, sentence.head? = some d → d = c) (hstop : (46 : UInt8) ∉ sentence) :
    Phrase (sentence.rdropWhile blank) ∧ (sentence.rdropWhile blank = [] → sentence = []) := by
  have hphrase : sentence.rdropWhile blank <+: sentence := List.rdropWhile_prefix blank sentence
  refine ⟨⟨?_, ?_, ?_⟩, fun hnil => ?_⟩
  · -- it begins where the sentence does
    cases hstart : sentence.rdropWhile blank with
    | nil => exact nofun
    | cons d rest =>
      obtain ⟨more, hmore⟩ := hphrase
      rw [hstart] at hmore
      have hd : d = c := hfirst d (by rw [← hmore]; rfl)
      simp [hd, hc]
  · by_cases hne : sentence.rdropWhile blank = []
    · rw [hne]
      exact nofun
    · have hnot := List.rdropWhile_last_not blank sentence hne
      rw [List.getLast?_map, List.getLast?_eq_some_getLast hne]
      simp [hnot]
  · intro hin
    obtain ⟨d, hd, hdot⟩ := List.mem_map.mp hin
    exact hstop (of_decide_eq_true hdot ▸ hphrase.subset hd)
  · cases hs : sentence with
    | nil => rfl
    | cons d rest =>
      have hd : d = c := hfirst d (by rw [hs]; rfl)
      have hblank := List.rdropWhile_eq_nil_iff.mp hnil d (by rw [hs]; exact List.mem_cons_self)
      rw [hd, hc] at hblank
      cases hblank

/-- Every message has its parts. -/
theorem exists_parts (h : ¬ ∀ c ∈ str, blank c = true) :
    ∃ lead phrase gap rest, Parts str lead phrase gap rest := by
  obtain ⟨c, tail, htail⟩ : ∃ c tail, str.dropWhile blank = c :: tail :=
    List.exists_cons_of_ne_nil fun hnil => h (List.dropWhile_eq_nil_iff.mp hnil)
  have hc : blank c = false := by
    have hhead := List.head?_dropWhile_not blank str
    rwa [htail] at hhead
  let sentence := (c :: tail).takeWhile fun d => decide (d ≠ 46)
  have hstop : (46 : UInt8) ∉ sentence := fun hin => of_decide_eq_true
    (List.mem_takeWhile_imp (p := fun d => decide (d ≠ 46)) hin) rfl
  have hfirst : ∀ d, sentence.head? = some d → d = c := by
    intro d hd
    simp only [sentence, List.takeWhile_cons] at hd
    split at hd
    · exact (Option.some.inj hd).symm
    · cases hd
  obtain ⟨hphrase, hempty⟩ := phrase_rdropWhile hc hfirst hstop
  refine ⟨str.takeWhile blank, sentence.rdropWhile blank, sentence.rtakeWhile blank,
    (c :: tail).dropWhile fun d => decide (d ≠ 46), ?_, fun d hd => List.mem_takeWhile_imp hd,
    hphrase, fun d hd => List.mem_rtakeWhile_imp hd, fun hnil => ?_, ?_⟩
  · rw [List.rdropWhile_append_rtakeWhile, List.takeWhile_append_dropWhile, ← htail,
      List.takeWhile_append_dropWhile]
  · have hnone : sentence = [] := hempty hnil
    refine ⟨by rw [hnone]; rfl, fun hrest => ?_⟩
    have hall := List.takeWhile_append_dropWhile (p := fun d => decide (d ≠ 46)) (l := c :: tail)
    rw [hrest] at hall
    exact List.cons_ne_nil c tail (hall.symm.trans (congrArg (· ++ []) hnone))
  · have hhead := List.head?_dropWhile_not (fun d => decide (d ≠ 46)) (c :: tail)
    cases hrest : (c :: tail).dropWhile fun d => decide (d ≠ 46) with
    | nil => exact .inl rfl
    | cons d rest =>
      rw [hrest] at hhead
      exact .inr (congrArg some (not_not.mp (of_decide_eq_false hhead)))

/-! ## 4. The result -/

/-- **A message becomes a phrase.** For every message of the system: if it is blank, it is left as
    it is; otherwise it is made of blanks, a phrase, blanks, and nothing or the rest from a full
    stop on, and however it is taken apart in this way, what is left of it is the phrase in lower
    case, which is a phrase. Formatting a message twice is formatting it once. -/
theorem format_phrase (str : List UInt8) :
    ((∀ c ∈ str, blank c = true) → format str = str) ∧
    (¬ (∀ c ∈ str, blank c = true) → Phrase (format str) ∧
      ∃ lead phrase gap rest, Parts str lead phrase gap rest) ∧
    (∀ lead phrase gap rest, Parts str lead phrase gap rest →
      format str = transform true phrase) ∧
    format (format str) = format str := by
  refine ⟨format_blank, fun hsome => ?_, fun _ _ _ _ h => h.format, ?_⟩
  · obtain ⟨lead, phrase, gap, rest, hparts⟩ := exists_parts hsome
    exact ⟨hparts.format ▸ hparts.middle.transform true, lead, phrase, gap, rest, hparts⟩
  · by_cases hblank : ∀ c ∈ str, blank c = true
    · rw [format_blank hblank, format_blank hblank]
    · obtain ⟨lead, phrase, gap, rest, hparts⟩ := exists_parts hblank
      have hphrase : Phrase (transform true phrase) := hparts.middle.transform true
      rw [hparts.format]
      by_cases hempty : transform true phrase = []
      · rw [hempty]
        rfl
      · have hagain : Parts (transform true phrase) [] (transform true phrase) [] [] :=
          ⟨by simp, fun _ => nofun, hphrase, fun _ => nofun, fun h => absurd h hempty, .inl rfl⟩
        rw [hagain.format, transform_transform]

end NativeCategory
end Ice
