import ChainKit.Lib.Text

/-! White space around a text. Where a white space takes several bytes, none of these but the first
begins another one, so that nothing is trimmed that is not white space as a whole. -/
namespace ChainKit.Lib

/-- White space of two and of three bytes, in either direction of reading. -/
structure SpaceCode where
  two : UInt8 → UInt8 → Bool
  three : UInt8 → UInt8 → UInt8 → Bool
  not_one_of_two : ∀ {a b}, two a b = true → isSpace1 a = false
  not_one_of_three : ∀ {a b c}, three a b c = true → isSpace1 a = false
  not_two_of_three : ∀ {a b c}, three a b c = true → two a b = false

namespace SpaceCode
variable (code : SpaceCode)

def drop (s : Bytes) : Bytes := dropSpaces code.two code.three s

def leads : Bytes → Bool
  | [] => false
  | [a] => isSpace1 a
  | [a,b] => isSpace1 a || code.two a b
  | a :: b :: c :: _ => isSpace1 a || code.two a b || code.three a b c

inductive Blank : Bytes → Prop
  | nil : Blank []
  | one {a : UInt8} {rest : Bytes} (ha : isSpace1 a = true) (h : Blank rest) : Blank (a :: rest)
  | two {a b : UInt8} {rest : Bytes} (hab : code.two a b = true) (h : Blank rest) :
      Blank (a :: b :: rest)
  | three {a b c : UInt8} {rest : Bytes} (habc : code.three a b c = true) (h : Blank rest) :
      Blank (a :: b :: c :: rest)

variable {code} {s w w' : Bytes}

theorem Blank.append (h : code.Blank w) (h' : code.Blank w') : code.Blank (w ++ w') := by
  induction h with
  | nil => exact h'
  | one ha h ih => exact .one ha ih
  | two hab h ih => exact .two hab ih
  | three habc h ih => exact .three habc ih

theorem Blank.drop_append (h : code.Blank w) (s : Bytes) : code.drop (w ++ s) = code.drop s := by
  unfold drop
  induction h with
  | nil => rfl
  | @one a rest ha h ih =>
    rw [List.cons_append]
    rcases hrest : rest ++ s with _ | ⟨b,_ | ⟨c,tail⟩⟩
    · rw [← ih,hrest]
      simp [dropSpaces,ha]
    · rw [← ih,hrest]
      simp [dropSpaces,ha]
    · rw [← ih,hrest]
      simp [dropSpaces,ha]
  | @two a b rest hab h ih =>
    have ha := code.not_one_of_two hab
    rw [List.cons_append,List.cons_append]
    rcases hrest : rest ++ s with _ | ⟨c,tail⟩
    · rw [← ih,hrest]
      simp [dropSpaces,ha,hab]
    · rw [← ih,hrest]
      simp [dropSpaces,ha,hab]
  | @three a b c rest habc h ih =>
    have ha := code.not_one_of_three habc
    have hab := code.not_two_of_three habc
    rw [← ih,List.cons_append,List.cons_append,List.cons_append]
    simp [dropSpaces,ha,hab,habc]

theorem drop_spec (s : Bytes) : ∃ w, code.Blank w ∧ s = w ++ code.drop s ∧
    code.leads (code.drop s) = false := by
  unfold drop
  fun_induction dropSpaces code.two code.three s with
  | case1 => exact ⟨[],.nil,rfl,rfl⟩
  | case2 a ha => exact ⟨[a],.one ha .nil,rfl,rfl⟩
  | case3 a ha => exact ⟨[],.nil,rfl,by simpa [leads] using ha⟩
  | case4 a b ha ih =>
    obtain ⟨w,hw,hsplit,hleads⟩ := ih
    exact ⟨a :: w,.one ha hw,by rw [List.cons_append,← hsplit],hleads⟩
  | case5 a b ha hab => exact ⟨[a,b],.two hab .nil,rfl,rfl⟩
  | case6 a b ha hab => exact ⟨[],.nil,rfl,by simp [leads,ha,hab]⟩
  | case7 a b c rest ha ih =>
    obtain ⟨w,hw,hsplit,hleads⟩ := ih
    exact ⟨a :: w,.one ha hw,by rw [List.cons_append,← hsplit],hleads⟩
  | case8 a b c rest ha hab ih =>
    obtain ⟨w,hw,hsplit,hleads⟩ := ih
    exact ⟨a :: b :: w,.two hab hw,by rw [List.cons_append,List.cons_append,← hsplit],hleads⟩
  | case9 a b c rest ha hab habc ih =>
    obtain ⟨w,hw,hsplit,hleads⟩ := ih
    refine ⟨a :: b :: c :: w,.three habc hw,?_,hleads⟩
    rw [List.cons_append,List.cons_append,List.cons_append,← hsplit]
  | case10 a b c rest ha hab habc => exact ⟨[],.nil,rfl,by simp [leads,ha,hab,habc]⟩

theorem drop_of_not_leads (h : code.leads s = false) : code.drop s = s := by
  unfold drop
  match s with
  | [] => rfl
  | [a] =>
    simp only [leads] at h
    simp [dropSpaces,h]
  | [a,b] =>
    simp only [leads,Bool.or_eq_false_iff] at h
    simp [dropSpaces,h]
  | a :: b :: c :: rest =>
    simp only [leads,Bool.or_eq_false_iff] at h
    simp [dropSpaces,h]

/-- The same code read in the other direction. -/
structure Mirrors (code code' : SpaceCode) : Prop where
  two : ∀ {a b}, code.two a b = true → code'.two b a = true
  three : ∀ {a b c}, code.three a b c = true → code'.three c b a = true

theorem Blank.reverse {code' : SpaceCode} (hmirrors : Mirrors code code') (h : code.Blank w) :
    code'.Blank w.reverse := by
  induction h with
  | nil => exact .nil
  | one ha h ih =>
    rw [List.reverse_cons]
    exact ih.append (.one ha .nil)
  | two hab h ih =>
    rw [List.reverse_cons,List.reverse_cons,List.append_assoc]
    exact ih.append (.two (hmirrors.two hab) .nil)
  | three habc h ih =>
    rw [List.reverse_cons,List.reverse_cons,List.reverse_cons,List.append_assoc,List.append_assoc]
    exact ih.append (.three (hmirrors.three habc) .nil)

end SpaceCode

theorem isSpace1_lt {a : UInt8} (h : isSpace1 a = true) : a < 0x80 := by
  simp only [isSpace1,Bool.or_eq_true,beq_iff_eq,decide_eq_true_eq] at h
  rcases h with rfl | h
  · decide
  · exact UInt8.lt_of_le_of_lt h.2 (by decide)

theorem isSpace2_bytes {a b : UInt8} (h : isSpace2 a b = true) :
    a = 0xc2 ∧ (b = 0x85 ∨ b = 0xa0) := by
  simpa [isSpace2] using h

theorem isSpace3_bytes {a b c : UInt8} (h : isSpace3 a b c = true) :
    (a = 0xe1 ∨ a = 0xe2 ∨ a = 0xe3) ∧ (b = 0x9a ∨ b = 0x80 ∨ b = 0x81) ∧ 0x80 ≤ c ∧ c ≤ 0xaf := by
  simp only [isSpace3,Bool.and_eq_true,Bool.or_eq_true,beq_iff_eq,decide_eq_true_eq] at h
  rcases h with ((h | h) | h) | h
  · obtain ⟨⟨rfl,rfl⟩,rfl⟩ := h
    decide
  · obtain ⟨⟨rfl,rfl⟩,((h | rfl) | rfl) | rfl⟩ := h
    · exact ⟨by decide,by decide,h.1,UInt8.le_trans h.2 (by decide)⟩
    · decide
    · decide
    · decide
  · obtain ⟨⟨rfl,rfl⟩,rfl⟩ := h
    decide
  · obtain ⟨⟨rfl,rfl⟩,rfl⟩ := h
    decide

theorem isSpace1_of_le {a : UInt8} (h : 0x80 ≤ a) : isSpace1 a = false := by
  rw [← Bool.not_eq_true]
  intro ha
  exact absurd (isSpace1_lt ha) (UInt8.not_lt.mpr h)

/-- White space in UTF-8, from left to right. -/
def utf8 : SpaceCode where
  two := isSpace2
  three := isSpace3
  not_one_of_two h := by
    rw [(isSpace2_bytes h).1]
    decide
  not_one_of_three h := by
    rcases (isSpace3_bytes h).1 with rfl | rfl | rfl <;> decide
  not_two_of_three h := by
    rw [← Bool.not_eq_true]
    intro htwo
    obtain ⟨rfl,-⟩ := isSpace2_bytes htwo
    rcases (isSpace3_bytes h).1 with hfirst | hfirst | hfirst <;> exact absurd hfirst (by decide)

/-- White space in UTF-8, from right to left. -/
def utf8Reversed : SpaceCode where
  two a b := isSpace2 b a
  three a b c := isSpace3 c b a
  not_one_of_two h := by
    rcases (isSpace2_bytes h).2 with rfl | rfl <;> decide
  not_one_of_three h := isSpace1_of_le (isSpace3_bytes h).2.2.1
  not_two_of_three h := by
    rw [← Bool.not_eq_true]
    intro htwo
    obtain ⟨rfl,-⟩ := isSpace2_bytes htwo
    rcases (isSpace3_bytes h).2.1 with hsecond | hsecond | hsecond <;>
      exact absurd hsecond (by decide)

theorem utf8_mirrors : SpaceCode.Mirrors utf8 utf8Reversed := ⟨id,id⟩

theorem utf8Reversed_mirrors : SpaceCode.Mirrors utf8Reversed utf8 := ⟨id,id⟩

theorem trimSpace_eq (s : Bytes) :
    trimSpace s = (utf8Reversed.drop (utf8.drop s).reverse).reverse := rfl

abbrev Blank (w : Bytes) : Prop := utf8.Blank w

/-- The bytes with which white space can begin. -/
def startsSpace (a : UInt8) : Bool := isSpace1 a || a == 0xc2 || a == 0xe1 || a == 0xe2 || a == 0xe3

section
variable {s w w' : Bytes}

theorem startsSpace_head {a : UInt8} (h : Blank (a :: w)) : startsSpace a = true := by
  unfold startsSpace
  cases h with
  | one ha _ => simp [ha]
  | two hab _ => simp [(isSpace2_bytes hab).1]
  | three habc _ =>
    rcases (isSpace3_bytes habc).1 with rfl | rfl | rfl <;> decide

theorem startsSpace_of_le {a : UInt8} (hlow : 0x80 ≤ a) (hhigh : a ≤ 0xaf) :
    startsSpace a = false := by
  have hne : ∀ b : UInt8, 0xaf < b → a ≠ b := by
    rintro b hb rfl
    exact absurd hb (UInt8.not_lt.mpr hhigh)
  simp [startsSpace,isSpace1_of_le hlow,hne 0xc2 (by decide),hne 0xe1 (by decide),
    hne 0xe2 (by decide),hne 0xe3 (by decide)]

/-- No white space begins inside of another one. -/
theorem not_isSpace2_of_starts {a b : UInt8} (h : startsSpace b = true) : isSpace2 a b = false := by
  rw [← Bool.not_eq_true]
  intro hab
  rcases (isSpace2_bytes hab).2 with rfl | rfl <;> exact absurd h (by decide)

theorem not_isSpace3_of_starts {a b c : UInt8} (h : startsSpace b = true ∨ startsSpace c = true) :
    isSpace3 a b c = false := by
  rw [← Bool.not_eq_true]
  intro habc
  obtain ⟨-,hsecond,hlow,hhigh⟩ := isSpace3_bytes habc
  rcases h with hb | hc
  · rcases hsecond with rfl | rfl | rfl <;> exact absurd hb (by decide)
  · rw [startsSpace_of_le hlow hhigh] at hc
    cases hc

theorem leads_append_blank (hs : s ≠ []) (h : utf8.leads s = false) (hw : Blank w) :
    utf8.leads (s ++ w) = false := by
  cases w with
  | nil =>
    rw [List.append_nil]
    exact h
  | cons d w =>
    have hd := startsSpace_head hw
    match s with
    | [] => contradiction
    | [a] =>
      have ha : isSpace1 a = false := h
      have htwo : utf8.two a d = false := not_isSpace2_of_starts hd
      cases w with
      | nil => simp [SpaceCode.leads,ha,htwo]
      | cons e w =>
        have hthree : utf8.three a d e = false := not_isSpace3_of_starts (.inl hd)
        simp [SpaceCode.leads,ha,htwo,hthree]
    | [a,b] =>
      have hthree : utf8.three a b d = false := not_isSpace3_of_starts (.inr hd)
      simp only [SpaceCode.leads,Bool.or_eq_false_iff] at h
      simp [SpaceCode.leads,h,hthree]
    | a :: b :: c :: rest => exact h

theorem trimSpace_blank_append (hw : Blank w) (s : Bytes) : trimSpace (w ++ s) = trimSpace s := by
  rw [trimSpace_eq,hw.drop_append,trimSpace_eq]

theorem trimSpace_append_blank (s : Bytes) (hw : Blank w) : trimSpace (s ++ w) = trimSpace s := by
  have hreversed : utf8Reversed.Blank w.reverse := hw.reverse utf8_mirrors
  obtain ⟨v,hv,hsplit,hleads⟩ := utf8.drop_spec s
  have hdrop : utf8.drop (s ++ w) = utf8.drop (utf8.drop s ++ w) := by
    conv_lhs => rw [hsplit,List.append_assoc,hv.drop_append]
  rw [trimSpace_eq,trimSpace_eq,hdrop]
  by_cases hnil : utf8.drop s = []
  · have hnothing := hw.drop_append []
    rw [List.append_nil] at hnothing
    rw [hnil,List.nil_append,hnothing]
    rfl
  · rw [SpaceCode.drop_of_not_leads (leads_append_blank hnil hleads hw),List.reverse_append,
      hreversed.drop_append]

theorem trimSpace_spec (s : Bytes) :
    ∃ w w', Blank w ∧ Blank w' ∧ s = w ++ trimSpace s ++ w' := by
  obtain ⟨w,hw,hleft,_⟩ := utf8.drop_spec s
  obtain ⟨v,hv,hright,_⟩ := utf8Reversed.drop_spec (utf8.drop s).reverse
  refine ⟨w,v.reverse,hw,hv.reverse utf8Reversed_mirrors,?_⟩
  have hrest : utf8.drop s = trimSpace s ++ v.reverse := by
    rw [trimSpace_eq,← List.reverse_append,← hright,List.reverse_reverse]
  rw [List.append_assoc,← hrest]
  exact hleft

@[simp] theorem trimSpace_trimSpace (s : Bytes) : trimSpace (trimSpace s) = trimSpace s := by
  obtain ⟨w,w',hw,hw',hsplit⟩ := trimSpace_spec s
  calc trimSpace (trimSpace s) = trimSpace (w ++ trimSpace s ++ w') := by
        rw [trimSpace_append_blank _ hw',trimSpace_blank_append hw]
    _ = trimSpace s := by rw [← hsplit]

theorem not_mem_blank {x : UInt8} (h1 : isSpace1 x = false) (hx : x < 0x80) (hw : Blank w) :
    x ∉ w := by
  intro hmem
  have htrim := mem_trimSpace h1 hx hmem
  have hnothing := trimSpace_blank_append hw []
  rw [List.append_nil] at hnothing
  rw [hnothing] at htrim
  cases htrim

end
end ChainKit.Lib
