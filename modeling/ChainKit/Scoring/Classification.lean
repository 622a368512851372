import ChainKit.Scoring.Event

/-! The classification of an error by its message. The indicators are looked for as they are
spelled, so that the type of the event depends on the case of the letters. -/
namespace ChainKit

/-- Two messages that differ only in the case of ASCII letters. -/
def SameButCase (s s' : String) : Prop := s.toList.map Char.toLower = s'.toList.map Char.toLower

/-- The text occurs in the message, in whatever spelling. -/
def ContainsAnyCase (s substr : String) : Prop :=
  substr.toList.map Char.toLower <:+: s.toList.map Char.toLower

section
variable {s s' substr : String}

theorem findSubstring_iff {s substr : List Char} (h : substr.length ≤ s.length) :
    findSubstring s substr = true ↔ substr <:+: s := by
  simp only [findSubstring,List.any_eq_true,List.mem_range,beq_iff_eq]
  constructor
  · rintro ⟨i,_,hi⟩
    rw [← hi]
    exact (List.take_prefix _ _).isInfix.trans (List.drop_suffix _ _).isInfix
  · rintro ⟨before,after,rfl⟩
    refine ⟨before.length,?_,?_⟩
    · simp only [List.length_append]
      omega
    · rw [List.append_assoc,List.drop_left,List.take_left]

theorem contains_iff : contains s substr = true ↔ substr.toList <:+: s.toList := by
  simp only [contains,Bool.and_eq_true,Bool.or_eq_true,decide_eq_true_eq,beq_iff_eq]
  constructor
  · rintro ⟨hle,rfl | ⟨_,hfind⟩⟩
    · exact List.infix_refl _
    · exact (findSubstring_iff hle).mp hfind
  · intro h
    have hle := h.length_le
    refine ⟨hle,?_⟩
    rcases hle.eq_or_lt with heq | hlt
    · left
      exact String.toList_inj.mp (h.eq_of_length heq).symm
    · exact .inr ⟨hlt,(findSubstring_iff hle).mpr h⟩

theorem containsAnyCase_of_contains (h : contains s substr = true) : ContainsAnyCase s substr :=
  (contains_iff.mp h).map _

theorem SameButCase.symm (h : SameButCase s s') : SameButCase s' s := Eq.symm h

theorem SameButCase.containsAnyCase (h : SameButCase s s') :
    ContainsAnyCase s substr ↔ ContainsAnyCase s' substr := by
  rw [ContainsAnyCase,ContainsAnyCase,h]

theorem ContainsAnyCase.split (h : ContainsAnyCase s substr) :
    ∃ first middle last, s.toList = first ++ middle ++ last ∧
      middle.map Char.toLower = substr.toList.map Char.toLower := by
  obtain ⟨before,after,hsplit⟩ := h
  obtain ⟨l,last,hs,hl,_⟩ := List.map_eq_append_iff.mp hsplit.symm
  obtain ⟨first,middle,rfl,_,hmiddle⟩ := List.map_eq_append_iff.mp hl
  exact ⟨first,middle,last,hs,hmiddle⟩

/-- Some message of the same letters has the text as it is spelled. -/
theorem ContainsAnyCase.exists_contains (h : ContainsAnyCase s substr) :
    ∃ s', SameButCase s s' ∧ contains s' substr = true := by
  obtain ⟨first,middle,last,hs,hmiddle⟩ := h.split
  refine ⟨String.ofList (first ++ substr.toList ++ last),?_,?_⟩
  · simp only [SameButCase,String.toList_ofList,hs,List.map_append,hmiddle]
  · rw [contains_iff,String.toList_ofList]
    exact ⟨first,last,rfl⟩

theorem eq_of_toLower_eq {c d : Char} (hd : d.isAlpha = false) (h : c.toLower = d.toLower) :
    c = d := by
  have hc : c.isAlpha = false := by
    rw [← Char.isAlpha_toLower_eq_isAlpha,h,Char.isAlpha_toLower_eq_isAlpha,hd]
  simp only [Char.isAlpha,Bool.or_eq_false_iff] at hc hd
  rwa [Char.toLower_eq_of_not_isUpper (by simp [hc.1]),
    Char.toLower_eq_of_not_isUpper (by simp [hd.1])] at h

theorem map_toLower_eq {t : List Char} (hletters : ∀ c ∈ t, c.isAlpha = false) {m : List Char}
    (h : m.map Char.toLower = t.map Char.toLower) : m = t := by
  induction t generalizing m with
  | nil => simpa using h
  | cons d t ih =>
    obtain ⟨c,m,rfl,hc,hm⟩ := List.map_eq_cons_iff.mp h
    rw [eq_of_toLower_eq (hletters d List.mem_cons_self) hc,
      ih (fun c hc => hletters c (List.mem_cons_of_mem _ hc)) hm]

theorem ContainsAnyCase.contains (h : ContainsAnyCase s substr)
    (hletters : substr.toList.any Char.isAlpha = false) : contains s substr = true := by
  obtain ⟨first,middle,last,hs,hmiddle⟩ := h.split
  simp only [List.any_eq_false,Bool.not_eq_true] at hletters
  rw [contains_iff,hs,map_toLower_eq hletters hmiddle]
  exact ⟨first,last,rfl⟩

end

/-- A spelling that no indicator with a letter has: capital letters, and a small h. -/
def misspell (c : Char) : Char := if c.toLower = 'h' then 'h' else c.toUpper

@[simp] theorem toLower_misspell (c : Char) : (misspell c).toLower = c.toLower := by
  unfold misspell
  split_ifs with h
  · rw [h]
    rfl
  · exact Char.toLower_toUpper_eq_toLower c

@[simp] theorem misspell_misspell (c : Char) : misspell (misspell c) = misspell c := by
  rw [misspell,toLower_misspell]
  unfold misspell
  split_ifs with h
  · rfl
  · exact Char.toUpper_toUpper_eq_toUpper c

def misspelled (s : String) : String := String.ofList (s.toList.map misspell)

theorem sameButCase_misspelled (s : String) : SameButCase s (misspelled s) := by
  simp [SameButCase,misspelled,Function.comp_def]

/-- A text with a letter of another spelling is not in a misspelled message. -/
theorem not_contains_misspelled (s : String) {substr : String}
    (h : substr.toList.any (fun c => misspell c != c) = true) :
    contains (misspelled s) substr = false := by
  rw [← Bool.not_eq_true,contains_iff]
  intro hinfix
  simp only [List.any_eq_true,bne_iff_ne] at h
  obtain ⟨c,hc,hne⟩ := h
  have hmem := hinfix.subset hc
  simp only [misspelled,String.toList_ofList,List.mem_map] at hmem
  obtain ⟨d,_,rfl⟩ := hmem
  exact hne (misspell_misspell d)

theorem not_auth_misspelled (s : String) : containsAuthFailureIndicator (misspelled s) = false := by
  have hspelled : ∀ t ∈ authFailureIndicators, t.toList.any (fun c => misspell c != c) = true := by
    decide +kernel
  rw [containsAuthFailureIndicator,List.any_eq_false]
  intro t ht
  rw [not_contains_misspelled s (hspelled t ht)]
  exact Bool.false_ne_true

theorem not_rateLimit_misspelled {s : String} (h : ¬ ContainsAnyCase s "429") :
    containsRateLimitIndicator (misspelled s) = false := by
  have hspelled : ∀ t ∈ rateLimitIndicators,
      t = "429" ∨ t.toList.any (fun c => misspell c != c) = true := by decide +kernel
  rw [containsRateLimitIndicator,List.any_eq_false]
  intro t ht hcontains
  rcases hspelled t ht with rfl | hletter
  · apply h
    rw [(sameButCase_misspelled s).containsAnyCase]
    exact containsAnyCase_of_contains hcontains
  · rw [not_contains_misspelled s hletter] at hcontains
    exact Bool.false_ne_true hcontains

def classify (s : String) : ScoreEventType :=
  if containsAuthFailureIndicator s then .operationAuthFail
  else if containsRateLimitIndicator s then .rateLimited
  else .operationFailed

theorem classifyOperationEvent_type (providerName : String) (responseTime timestamp : ℤ)
    (err : GoError) :
    (classifyOperationEvent providerName responseTime (some err) timestamp).type =
      classify err.error := rfl

section
variable {s s' : String}

theorem classify_eq_auth_iff : classify s = .operationAuthFail ↔
    containsAuthFailureIndicator s = true := by
  unfold classify
  split_ifs <;> simp_all

theorem classify_eq_rateLimited_iff : classify s = .rateLimited ↔
    containsAuthFailureIndicator s = false ∧ containsRateLimitIndicator s = true := by
  unfold classify
  split_ifs <;> simp_all

theorem any_contains_of_anyCase {indicators : List String}
    (h : ∀ t ∈ indicators, ¬ ContainsAnyCase s t) : indicators.any (contains s) = false := by
  rw [List.any_eq_false]
  exact fun t ht hcontains => h t ht (containsAnyCase_of_contains hcontains)

/-- The messages whose type does not depend on the case of their letters. -/
def CaseFree (s : String) : Prop :=
  (∀ t ∈ authFailureIndicators, ¬ ContainsAnyCase s t) ∧
    (contains s "429" = true ∨ ∀ t ∈ rateLimitIndicators, ¬ ContainsAnyCase s t)

theorem SameButCase.status (h : SameButCase s s') (hstatus : contains s "429" = true) :
    contains s' "429" = true :=
  (h.containsAnyCase.mp (containsAnyCase_of_contains hstatus)).contains (by decide +kernel)

theorem CaseFree.congr (hfree : CaseFree s) (h : SameButCase s s') : CaseFree s' := by
  unfold CaseFree
  simp only [← h.containsAnyCase]
  exact ⟨hfree.1,hfree.2.imp_left h.status⟩

/-- The type of such a message: nothing but the status code is looked at. -/
theorem CaseFree.classify_eq (hfree : CaseFree s) :
    classify s = if contains s "429" = true then .rateLimited else .operationFailed := by
  have hauth : containsAuthFailureIndicator s = false := any_contains_of_anyCase hfree.1
  rcases hfree.2 with hstatus | hrate
  · rw [if_pos hstatus,classify_eq_rateLimited_iff]
    exact ⟨hauth,List.any_eq_true.mpr ⟨"429",by simp [rateLimitIndicators],hstatus⟩⟩
  · have hnone : ¬ contains s "429" = true := fun hstatus =>
      hrate "429" (by simp [rateLimitIndicators]) (containsAnyCase_of_contains hstatus)
    have hlimit : containsRateLimitIndicator s = false := any_contains_of_anyCase hrate
    rw [if_neg hnone,classify,hauth,hlimit]
    rfl

theorem CaseFree.same_type (hfree : CaseFree s) (h : SameButCase s s') :
    classify s' = classify s := by
  have hstatus : contains s' "429" = true ↔ contains s "429" = true := ⟨h.symm.status,h.status⟩
  rw [hfree.classify_eq,(hfree.congr h).classify_eq]
  simp only [hstatus]

theorem no_auth_of_same_type (hsame : ∀ s', SameButCase s s' → classify s' = classify s)
    {t : String} (ht : t ∈ authFailureIndicators) : ¬ ContainsAnyCase s t := by
  intro h
  obtain ⟨s',hs',hcontains⟩ := h.exists_contains
  have hauth := classify_eq_auth_iff.mpr (List.any_eq_true.mpr ⟨t,ht,hcontains⟩)
  rw [hsame s' hs',← hsame _ (sameButCase_misspelled s),classify_eq_auth_iff,
    not_auth_misspelled] at hauth
  exact Bool.false_ne_true hauth

theorem caseFree_iff :
    (∀ s', SameButCase s s' → classify s' = classify s) ↔ CaseFree s := by
  constructor
  · intro hsame
    have hauth := fun t ht => no_auth_of_same_type (t := t) hsame ht
    refine ⟨hauth,or_iff_not_imp_left.mpr (fun hstatus t ht h => ?_)⟩
    have hdigits : ¬ ContainsAnyCase s "429" := fun h => hstatus (h.contains (by decide +kernel))
    obtain ⟨s',hs',hcontains⟩ := h.exists_contains
    have hlimited : classify s' = .rateLimited := by
      refine classify_eq_rateLimited_iff.mpr ⟨any_contains_of_anyCase ?_,
        List.any_eq_true.mpr ⟨t,ht,hcontains⟩⟩
      simpa only [← hs'.containsAnyCase] using hauth
    rw [hsame s' hs',← hsame _ (sameButCase_misspelled s),classify_eq_rateLimited_iff,
      not_rateLimit_misspelled hdigits] at hlimited
    exact Bool.false_ne_true hlimited.2
  · exact fun hfree s' h => hfree.same_type h

end

/-- The type of an error survives every change of case exactly when no authentication
indicator occurs in its message in any spelling, and no rate limit indicator either unless
the status code 429 stands there too. -/
theorem classifyOperationEvent_case (providerName : String) (responseTime timestamp : ℤ)
    (err : GoError) :
    (∀ err' : GoError, SameButCase err.error err'.error →
        (classifyOperationEvent providerName responseTime (some err') timestamp).type =
          (classifyOperationEvent providerName responseTime (some err) timestamp).type) ↔
      CaseFree err.error := by
  simp only [classifyOperationEvent_type]
  rw [← caseFree_iff]
  constructor
  · exact fun h s' hs' => h (.plain s') hs'
  · exact fun h err' herr' => h err'.error herr'

theorem classifyOperationEvent_case_capitals :
    SameButCase "unauthorized" "Unauthorized" ∧
      SameButCase "too many requests" "Too Many Requests" ∧
      (classifyOperationEvent "p" 0 (some (.plain "unauthorized")) 0).type = .operationAuthFail ∧
      (classifyOperationEvent "p" 0 (some (.plain "Unauthorized")) 0).type = .operationFailed ∧
      (classifyOperationEvent "p" 0 (some (.plain "too many requests")) 0).type = .rateLimited ∧
      (classifyOperationEvent "p" 0 (some (.plain "Too Many Requests")) 0).type =
        .operationFailed := by
  unfold SameButCase
  decide +kernel

end ChainKit
