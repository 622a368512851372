import ChainKit.Bitcoin.Tx
import ChainKit.Lib.Heaviest

/-! The choice of the outputs that a payment spends. -/
namespace ChainKit.Bitcoin
open Lib

/-- The loop of `UTXOSet.Select`. -/
def selectLoop (targetAmount : Int64) (selectedUTXOs : List UTXO) (changeAmount : Int64) :
    List UTXO → List UTXO × Int64
  | [] => (selectedUTXOs,changeAmount)
  | utxo :: rest =>
    let selectedUTXOs := selectedUTXOs ++ [utxo]
    let changeAmount := changeAmount+utxo.amount
    if changeAmount ≥ targetAmount then (selectedUTXOs,changeAmount)
    else selectLoop targetAmount selectedUTXOs changeAmount rest

/-- `UTXOSet.Select`, on the outputs of the set. -/
def select (utxos : List UTXO) (targetAmount : Int64) : Except GoError (List UTXO × Int64) :=
  let (selectedUTXOs,changeAmount) := selectLoop targetAmount [] 0 utxos
  if changeAmount < targetAmount then .error (.plain "insufficient funds")
  else .ok (selectedUTXOs,changeAmount-targetAmount)

def total (utxos : List UTXO) : ℤ := weight (·.amount.toInt) utxos

@[simp] theorem total_nil : total [] = 0 := rfl

@[simp] theorem total_cons (u : UTXO) (utxos : List UTXO) :
    total (u :: utxos) = u.amount.toInt+total utxos := weight_cons _ u utxos

@[simp] theorem total_append (utxos utxos' : List UTXO) :
    total (utxos ++ utxos') = total utxos+total utxos' := weight_append _ utxos utxos'

/-- No amount is negative, and their sum is an `int64`. -/
structure AmountsFit (utxos : List UTXO) : Prop where
  nonneg : ∀ u ∈ utxos, 0 ≤ u.amount.toInt
  sum : total utxos < 2^63

namespace AmountsFit
variable {utxos utxos' : List UTXO}

theorem total_nonneg (h : AmountsFit utxos) : 0 ≤ total utxos := weight_nonneg h.nonneg

theorem of_append (h : AmountsFit (utxos ++ utxos')) : AmountsFit utxos := by
  have hrest : 0 ≤ total utxos' := weight_nonneg fun u hu => h.nonneg u (by simp [hu])
  have hsum := h.sum
  rw [total_append] at hsum
  exact ⟨fun u hu => h.nonneg u (by simp [hu]),by omega⟩

theorem toInt_add (h : AmountsFit utxos) {u : UTXO} {utxos' : List UTXO} {change : Int64}
    (hutxos : utxos = utxos' ++ [u]) (hchange : change.toInt = total utxos') :
    (change+u.amount).toInt = total utxos := by
  have hnonneg := h.total_nonneg
  have hsum := h.sum
  subst hutxos
  rw [total_append,total_cons,total_nil] at hnonneg hsum ⊢
  rw [Int64.toInt_add,hchange,Int.bmod_eq_of_le (by omega) (by omega)]
  omega

end AmountsFit

theorem selectLoop_eq {target : Int64} {chosen rest : List UTXO} {change : Int64}
    (hfit : AmountsFit (chosen ++ rest)) (hchange : change.toInt = total chosen)
    (hbelow : total chosen < target.toInt) : ∃ k ≤ rest.length,
      (selectLoop target chosen change rest).1 = chosen ++ rest.take k ∧
      (selectLoop target chosen change rest).2.toInt = total (chosen ++ rest.take k) ∧
      (∀ j < k, total (chosen ++ rest.take j) < target.toInt) ∧
      (target.toInt ≤ total (chosen ++ rest.take k) ∨ k = rest.length) := by
  induction rest generalizing chosen change with
  | nil => exact ⟨0,le_refl _,by simp [selectLoop],by simpa [selectLoop] using hchange,by simp,
      by simp⟩
  | cons u rest ih =>
    have hassoc : chosen ++ u :: rest = chosen ++ [u] ++ rest := by simp
    rw [hassoc] at hfit
    have hchange' := hfit.of_append.toInt_add rfl hchange
    simp only [selectLoop,ge_iff_le,Int64.le_iff_toInt_le,hchange']
    split_ifs with hreached
    · refine ⟨1,by simp,by simp,by simpa using hchange',?_,.inl (by simpa using hreached)⟩
      intro j hj
      simpa [Nat.lt_one_iff.mp hj] using hbelow
    · obtain ⟨k,hk,hchosen,hsum,hshort,hend⟩ := ih hfit hchange' (by omega)
      have htake (j : ℕ) : chosen ++ (u :: rest).take (j+1) = chosen ++ [u] ++ rest.take j := by
        simp
      refine ⟨k+1,by simpa using hk,?_,?_,?_,?_⟩
      · rw [htake,hchosen]
      · rw [htake,hsum]
      · intro j hj
        cases j with
        | zero => simpa using hbelow
        | succ j =>
          rw [htake]
          exact hshort j (by omega)
      · rw [htake]
        exact hend.imp_right fun h => by rw [h,List.length_cons]

/-- The shortest part at the front of a list that is worth a target. -/
structure ShortestFront (target : ℤ) (utxos chosen : List UTXO) : Prop where
  front : chosen <+: utxos
  reaches : target ≤ total chosen
  shortest : ∀ front, front <+: utxos → target ≤ total front → chosen.length ≤ front.length

theorem total_take_le {utxos : List UTXO} (hfit : AmountsFit utxos) (k : ℕ) :
    total (utxos.take k) ≤ total utxos := by
  have hrest : 0 ≤ total (utxos.drop k) :=
    weight_nonneg fun u hu => hfit.nonneg u (List.mem_of_mem_drop hu)
  calc total (utxos.take k) ≤ total (utxos.take k)+total (utxos.drop k) := by omega
    _ = total utxos := by rw [← total_append,List.take_append_drop]

/-- The parts of a list at its front that are worth less than the target come before those that
reach it. -/
theorem shortestFront_take {target : ℤ} {utxos : List UTXO} {k : ℕ} (hk : k ≤ utxos.length)
    (hshort : ∀ j < k, total (utxos.take j) < target) (hreach : target ≤ total (utxos.take k)) :
    ShortestFront target utxos (utxos.take k) := by
  have hfront := List.take_prefix k utxos
  refine ⟨hfront,hreach,?_⟩
  intro front hfront' hreach'
  rw [List.prefix_iff_eq_take] at hfront'
  rw [List.length_take_of_le hk]
  by_contra hlt
  have hbelow := hshort front.length (by omega)
  rw [← hfront'] at hbelow
  omega

/-- What `Select` returns when it succeeds. -/
structure Chosen (target : ℤ) (utxos chosen : List UTXO) (change : ℤ) : Prop where
  shortestFront : ShortestFront target utxos chosen
  sum : total chosen = target+change
  nonneg : 0 ≤ change
  last : ∃ last ∈ chosen.getLast?, change < last.amount.toInt

theorem chosen_take {target : ℤ} {utxos : List UTXO} {k : ℕ} (hk : k < utxos.length)
    (hshort : ∀ j < k+1, total (utxos.take j) < target)
    (hreach : target ≤ total (utxos.take (k+1))) :
    Chosen target utxos (utxos.take (k+1)) (total (utxos.take (k+1))-target) := by
  have hbefore := hshort k (by omega)
  have hsplit := List.take_succ_eq_append_getElem hk
  refine ⟨shortestFront_take hk hshort hreach,by omega,by omega,utxos[k],?_,?_⟩
  · rw [hsplit,Option.mem_def]
    exact List.getLast?_concat
  · rw [hsplit,total_append,total_cons,total_nil]
    omega

/-- `Select` in terms of the sums of the parts at the front of the list. -/
theorem select_cases {utxos : List UTXO} {target : Int64} (hfit : AmountsFit utxos)
    (hpos : 0 < target.toInt) :
    (total utxos < target.toInt ∧ select utxos target = .error (.plain "insufficient funds")) ∨
    (target.toInt ≤ total utxos ∧ ∃ chosen change, select utxos target = .ok (chosen,change) ∧
      Chosen target.toInt utxos chosen change.toInt) := by
  have hfit' : AmountsFit ([] ++ utxos) := hfit
  have hnothing : (0 : Int64).toInt = total [] := rfl
  obtain ⟨k,hk,hchosen,hsum,hshort,hend⟩ := selectLoop_eq hfit' hnothing hpos
  simp only [List.nil_append] at hchosen hsum hshort hend
  simp only [select,Int64.lt_iff_toInt_lt,hsum,hchosen]
  split_ifs with hbelow
  · left
    obtain rfl := hend.resolve_left (by omega)
    rw [List.take_length] at hbelow
    exact ⟨hbelow,rfl⟩
  · right
    have hbound := total_take_le hfit k
    have hfits := hfit.sum
    refine ⟨by omega,_,_,rfl,?_⟩
    have hchange : ((selectLoop target [] 0 utxos).2-target).toInt =
        total (utxos.take k)-target.toInt := by
      rw [Int64.toInt_sub,hsum]
      exact Int.bmod_eq_of_le (by omega) (by omega)
    rw [hchange]
    -- Nothing is not enough for a target above zero.
    cases k with
    | zero =>
      rw [List.take_zero,total_nil] at hbelow
      omega
    | succ k => exact chosen_take hk hshort (by omega)

theorem chosen_of_select {utxos chosen : List UTXO} {target change : Int64}
    (hfit : AmountsFit utxos) (hpos : 0 < target.toInt)
    (h : select utxos target = .ok (chosen,change)) :
    Chosen target.toInt utxos chosen change.toInt := by
  rcases select_cases hfit hpos with ⟨_,herror⟩ | ⟨_,chosen',change',hok,hchosen⟩
  · rw [herror] at h
    cases h
  · rw [hok] at h
    cases h
    exact hchosen

/-- For amounts that fit, `Select` succeeds exactly when the list covers the target. It then
takes the shortest part at the front that does, and hands back less than its last output. -/
theorem select_correct {utxos : List UTXO} {target : Int64} (hfit : AmountsFit utxos)
    (hpos : 0 < target.toInt) :
    ((∃ chosen change, select utxos target = .ok (chosen,change)) ↔
      target.toInt ≤ total utxos) ∧
    ∀ chosen change, select utxos target = .ok (chosen,change) →
      ShortestFront target.toInt utxos chosen ∧
      total chosen = target.toInt+change.toInt ∧
      0 ≤ change.toInt ∧ ∃ last ∈ chosen.getLast?, change.toInt < last.amount.toInt := by
  refine ⟨?_,?_⟩
  · rcases select_cases hfit hpos with ⟨hbelow,herror⟩ | ⟨hreach,chosen,change,hok,_⟩
    · simp [herror,hbelow]
    · exact ⟨fun _ => hreach,fun _ => ⟨chosen,change,hok⟩⟩
  · intro chosen change h
    have hchosen := chosen_of_select hfit hpos h
    exact ⟨hchosen.shortestFront,hchosen.sum,hchosen.nonneg,hchosen.last⟩

def outputsOf (amounts : List Int64) : List UTXO :=
  amounts.map fun amount => ⟨[],0,amount,none,[],true⟩

theorem select_correct_three :
    select (outputsOf [2,3,4]) 4 = .ok (outputsOf [2,3],1) ∧
      ShortestFront 4 (outputsOf [2,3,4]) (outputsOf [2,3]) := by
  have hfit : AmountsFit (outputsOf [2,3,4]) := ⟨by decide,by decide⟩
  have hok : select (outputsOf [2,3,4]) 4 = .ok (outputsOf [2,3],1) := by decide +kernel
  exact ⟨hok,((select_correct hfit (by decide)).2 _ _ hok).1⟩

def sufficientSizes (target : ℤ) (utxos : List UTXO) : Set ℕ :=
  { n | ∃ sub : List UTXO, sub.Subperm utxos ∧ target ≤ total sub ∧ sub.length = n }

/-- How many outputs from the front of a list it takes to reach a target. -/
def frontLength (target : ℤ) : List UTXO → ℕ
  | [] => 0
  | u :: utxos => if target ≤ 0 then 0 else frontLength (target-u.amount.toInt) utxos+1

theorem frontLength_eq {target : ℤ} {utxos : List UTXO} {k : ℕ} (hk : k ≤ utxos.length)
    (hshort : ∀ j < k, total (utxos.take j) < target) (hreach : target ≤ total (utxos.take k)) :
    frontLength target utxos = k := by
  induction utxos generalizing target k with
  | nil =>
    rw [List.length_nil] at hk
    simp [frontLength,Nat.le_zero.mp hk]
  | cons u utxos ih =>
    cases k with
    | zero => simpa [frontLength] using hreach
    | succ k =>
      have hpos : 0 < target := hshort 0 (Nat.succ_pos k)
      rw [frontLength,if_neg (not_le.mpr hpos),ih (Nat.le_of_succ_le_succ hk)]
      · intro j hj
        have hbefore := hshort (j+1) (Nat.succ_lt_succ hj)
        rw [List.take_succ_cons,total_cons] at hbefore
        omega
      · rw [List.take_succ_cons,total_cons] at hreach
        omega

theorem ShortestFront.length_eq {target : ℤ} {utxos chosen : List UTXO}
    (h : ShortestFront target utxos chosen) : chosen.length = frontLength target utxos := by
  have htake := List.prefix_iff_eq_take.mp h.front
  symm
  apply frontLength_eq h.front.length_le
  · intro j hj
    by_contra hreach
    have hle := h.shortest _ (List.take_prefix j utxos) (not_lt.mp hreach)
    rw [List.length_take] at hle
    omega
  · rw [← htake]
    exact h.reaches

/-- A number of outputs that reaches the target is the least such number exactly when one output
less is not enough even of the most valuable ones. -/
theorem isLeast_iff {target : ℤ} {utxos : List UTXO} {k : ℕ} (hfit : AmountsFit utxos)
    (hpos : 0 < k) (hk : k ∈ sufficientSizes target utxos) :
    IsLeast (sufficientSizes target utxos) k ↔
      total (heaviest (·.amount.toInt) (k-1) utxos) < target := by
  have hreaches : (∃ sub : List UTXO, sub.Subperm utxos ∧ sub.length ≤ k-1 ∧
      target ≤ total sub) ↔ _ := exists_reaches_iff hfit.nonneg
  rw [← not_le,total,← hreaches]
  constructor
  · rintro ⟨_,hleast⟩ ⟨sub,hsub,hlength,hreach⟩
    have := hleast ⟨sub,hsub,hreach,rfl⟩
    omega
  · intro hnone
    refine ⟨hk,?_⟩
    rintro n ⟨sub,hsub,hreach,rfl⟩
    by_contra hlt
    exact hnone ⟨sub,hsub,by omega,hreach⟩

/-- For a list that covers the target, `Select` takes as few outputs as possible exactly when the
most valuable outputs, one less than it takes from the front of the list to reach the target, do not
reach it. -/
theorem select_minimum_iff {utxos : List UTXO} {target : Int64} (hfit : AmountsFit utxos)
    (hpos : 0 < target.toInt) (hcovers : target.toInt ≤ total utxos) :
    (∃ chosen change, select utxos target = .ok (chosen,change) ∧
      IsLeast (sufficientSizes target.toInt utxos) chosen.length) ↔
    total (heaviest (·.amount.toInt) (frontLength target.toInt utxos-1) utxos) <
      target.toInt := by
  obtain ⟨hbelow,_⟩ | ⟨_,chosen,change,hok,hchosen⟩ := select_cases hfit hpos
  · omega
  obtain ⟨hfront,_,_,last,hlast,_⟩ := hchosen
  have hsome : 0 < chosen.length := by
    rw [Option.mem_def] at hlast
    exact List.length_pos_of_mem (List.mem_of_getLast? hlast)
  have hmem : chosen.length ∈ sufficientSizes target.toInt utxos :=
    ⟨chosen,hfront.front.sublist.subperm,hfront.reaches,rfl⟩
  rw [← hfront.length_eq,← isLeast_iff hfit hsome hmem]
  constructor
  · rintro ⟨chosen',change',hok',hleast⟩
    rw [hok] at hok'
    cases hok'
    exact hleast
  · intro hleast
    exact ⟨chosen,change,hok,hleast⟩

theorem select_minimum_three :
    select (outputsOf [4,3,2]) 5 = .ok (outputsOf [4,3],2) ∧
      ∃ chosen change, select (outputsOf [4,3,2]) 5 = .ok (chosen,change) ∧
        IsLeast (sufficientSizes 5 (outputsOf [4,3,2])) chosen.length := by
  have hfit : AmountsFit (outputsOf [4,3,2]) := ⟨by decide,by decide⟩
  exact ⟨by decide +kernel,
    (select_minimum_iff hfit (by decide) (by decide)).mpr (by decide)⟩

/-- Three outputs are taken where the last one alone is enough. -/
theorem select_not_minimum :
    select (outputsOf [1,1,5]) 5 = .ok (outputsOf [1,1,5],2) ∧
      1 ∈ sufficientSizes 5 (outputsOf [1,1,5]) := by
  refine ⟨by decide +kernel,outputsOf [5],?_,by decide,rfl⟩
  apply List.Sublist.subperm
  decide

end ChainKit.Bitcoin
