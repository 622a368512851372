import ChainKit.Lib.Whitespace
import ChainKit.Payment.Verification

/-! The grammar of the signature header: pairs joined by commas, with white space around the keys
and the values. The parser accepts what has this form and nothing else. -/
namespace ChainKit.Payment
open Lib

structure HeaderPair where
  key : Bytes
  value : Bytes
  key_ne_nil : key ≠ []
  comma_key : (0x2c : UInt8) ∉ key
  equals_key : (0x3d : UInt8) ∉ key
  comma_value : (0x2c : UInt8) ∉ value
  trim_key : trimSpace key = key
  trim_value : trimSpace value = value

/-- A pair with the white space that is put around it. -/
structure Piece extends HeaderPair where
  beforeKey : Bytes
  afterKey : Bytes
  beforeValue : Bytes
  afterValue : Bytes
  blank_beforeKey : Blank beforeKey
  blank_afterKey : Blank afterKey
  blank_beforeValue : Blank beforeValue
  blank_afterValue : Blank afterValue

namespace Piece

def text (p : Piece) : Bytes :=
  (p.beforeKey ++ p.key ++ p.afterKey) ++ 0x3d :: (p.beforeValue ++ p.value ++ p.afterValue)

def join (pieces : List Piece) : Bytes := [0x2c].intercalate (pieces.map text)

end Piece

theorem comma_not_blank {w : Bytes} (h : Blank w) : (0x2c : UInt8) ∉ w :=
  not_mem_blank (by decide) (by decide) h

theorem equals_not_blank {w : Bytes} (h : Blank w) : (0x3d : UInt8) ∉ w :=
  not_mem_blank (by decide) (by decide) h

theorem cut_trimSpace {x y : Bytes} (hx : (0x3d : UInt8) ∉ x) :
    ∃ x' y', cut 0x3d (trimSpace (x ++ 0x3d :: y)) = some (x',y') ∧
      trimSpace x' = trimSpace x ∧ trimSpace y' = trimSpace y := by
  obtain ⟨w,w',hw,hw',hsplit⟩ := trimSpace_spec (x ++ 0x3d :: y)
  have hmem : (0x3d : UInt8) ∈ trimSpace (x ++ 0x3d :: y) :=
    mem_trimSpace (by decide) (by decide) (by simp)
  obtain ⟨x',y',htrim,hx'⟩ := List.eq_append_cons_of_mem hmem
  rw [htrim] at hsplit ⊢
  have hparts : x ++ 0x3d :: y = (w ++ x') ++ 0x3d :: (y' ++ w') := by
    rw [hsplit]
    simp
  obtain ⟨rfl,rfl⟩ := append_cons_inj hx (by simp [equals_not_blank hw,hx']) hparts
  exact ⟨x',y',cut_append hx' y',(trimSpace_blank_append hw x').symm,
    (trimSpace_append_blank y' hw').symm⟩

theorem parsePair_append {x y : Bytes} (hx : (0x3d : UInt8) ∉ x) (hkey : trimSpace x ≠ []) :
    parsePair (x ++ 0x3d :: y) = .ok (trimSpace x,trimSpace y) := by
  obtain ⟨x',y',hcut,hx',hy'⟩ := cut_trimSpace (y := y) hx
  simp only [parsePair,hcut,hx',hy',if_neg hkey]

theorem parsePair_text (p : Piece) : parsePair p.text = .ok (p.key,p.value) := by
  have htrim {w s w' : Bytes} (hw : Blank w) (hs : trimSpace s = s) (hw' : Blank w') :
      trimSpace (w ++ s ++ w') = s := by
    rw [trimSpace_append_blank _ hw',trimSpace_blank_append hw,hs]
  have hkey := htrim p.blank_beforeKey p.trim_key p.blank_afterKey
  have hvalue := htrim p.blank_beforeValue p.trim_value p.blank_afterValue
  have hequals : (0x3d : UInt8) ∉ p.beforeKey ++ p.key ++ p.afterKey := by
    simp [equals_not_blank p.blank_beforeKey,p.equals_key,equals_not_blank p.blank_afterKey]
  rw [Piece.text,parsePair_append hequals (by rw [hkey]; exact p.key_ne_nil),hkey,hvalue]

theorem exists_piece {raw k v : Bytes} (hcomma : (0x2c : UInt8) ∉ raw)
    (h : parsePair raw = .ok (k,v)) : ∃ p : Piece, p.text = raw := by
  unfold parsePair at h
  split at h
  · cases h
  · rename_i x y hcut
    split_ifs at h with hkey
    obtain ⟨htrim,hx⟩ := cut_eq_some_iff.mp hcut
    obtain ⟨w,w',hw,hw',hraw⟩ := trimSpace_spec raw
    obtain ⟨u,u',hu,hu',hx'⟩ := trimSpace_spec x
    obtain ⟨t,t',ht,ht',hy'⟩ := trimSpace_spec y
    have hparts : raw =
        (w ++ u ++ trimSpace x ++ u') ++ 0x3d :: (t ++ trimSpace y ++ (t' ++ w')) := by
      conv_lhs => rw [hraw,htrim,hx',hy']
      simp
    refine ⟨⟨⟨trimSpace x,trimSpace y,hkey,?_,?_,?_,by simp,by simp⟩,w ++ u,u',t,t' ++ w',
      hw.append hu,hu',ht,ht'.append hw'⟩,hparts.symm⟩
    · intro hmem
      rw [hparts] at hcomma
      simp [hmem] at hcomma
    · intro hmem
      rw [hx'] at hx
      simp [hmem] at hx
    · intro hmem
      rw [hparts] at hcomma
      simp [hmem] at hcomma

def lastValue (pieces : List Piece) (key : Bytes) : Option Bytes :=
  (pieces.reverse.find? fun p => p.key = key).map fun p => p.value

/-- The loop puts the values of the pieces into the map, one after the other. -/
def collect (pieces : List Piece) (out : Parts) : Parts :=
  pieces.foldl (fun out p => out.insert p.key p.value) out

theorem parsePairs_text (pieces : List Piece) (out : Parts) :
    parsePairs (pieces.map Piece.text) out = .ok (collect pieces out) := by
  induction pieces generalizing out with
  | nil => rfl
  | cons p pieces ih =>
    simp only [List.map_cons,parsePairs,parsePair_text,bind,Except.bind]
    exact ih _

theorem lookup_collect (pieces : List Piece) (out : Parts) (key : Bytes) :
    (collect pieces out).lookup key = (lastValue pieces key).or (out.lookup key) := by
  induction pieces generalizing out with
  | nil => rfl
  | cons p pieces ih =>
    have hinsert : (out.insert p.key p.value).lookup key =
        (if p.key = key then some p.value else none).or (out.lookup key) := by
      split_ifs with hkey
      · rw [← hkey,AList.lookup_insert]
        rfl
      · rw [AList.lookup_insert_ne (Ne.symm hkey)]
        rfl
    have hlast : lastValue (p :: pieces) key =
        (lastValue pieces key).or (if p.key = key then some p.value else none) := by
      simp only [lastValue,List.reverse_cons,List.find?_append,Option.map_or,List.find?_singleton,
        decide_eq_true_eq]
      split_ifs <;> rfl
    rw [hlast,Option.or_assoc,← hinsert]
    exact ih _

theorem collect_ne_nil {pieces : List Piece} (h : pieces ≠ []) :
    (collect pieces ∅).entries ≠ [] := by
  obtain ⟨front,p,rfl⟩ := (List.eq_nil_or_concat' pieces).resolve_left h
  intro hnil
  have hempty : collect (front ++ [p]) ∅ = ∅ := AList.ext hnil
  have hlookup := AList.lookup_insert (a := p.key) (b := p.value) (collect front ∅)
  have hconcat : collect (front ++ [p]) ∅ = (collect front ∅).insert p.key p.value := by
    simp [collect]
  rw [← hconcat,hempty,AList.lookup_empty] at hlookup
  cases hlookup

theorem parseSignatureHeader_join {pieces : List Piece} (h : pieces ≠ []) :
    parseSignatureHeader (Piece.join pieces) = .ok (collect pieces ∅) := by
  have hcomma : ∀ raw ∈ pieces.map Piece.text, (0x2c : UInt8) ∉ raw := by
    intro raw hraw
    obtain ⟨p,_,rfl⟩ := List.mem_map.mp hraw
    simp [Piece.text,comma_not_blank p.blank_beforeKey,comma_not_blank p.blank_afterKey,
      comma_not_blank p.blank_beforeValue,comma_not_blank p.blank_afterValue,p.comma_key,
      p.comma_value]
  have hsplit : (Piece.join pieces).splitOn 0x2c = pieces.map Piece.text :=
    List.splitOn_intercalate _ hcomma (by simpa using h)
  simp only [parseSignatureHeader,hsplit,parsePairs_text,bind,Except.bind,if_neg (collect_ne_nil h)]

theorem comma_not_mem_splitOn {header raw : Bytes} (h : raw ∈ header.splitOn 0x2c) :
    (0x2c : UInt8) ∉ raw := by
  rw [List.splitOn_eq_splitOnP] at h
  induction header generalizing raw with
  | nil =>
    rw [List.splitOnP_nil,List.mem_singleton] at h
    simp [h]
  | cons c header ih =>
    rw [List.splitOnP_cons_eq_if_modifyHead] at h
    split_ifs at h with hc
    · rcases List.mem_cons.mp h with rfl | h
      · simp
      · exact ih h
    · cases hrest : header.splitOnP (· == 0x2c) with
      | nil => simp [hrest] at h
      | cons first rest =>
        rw [hrest,List.modifyHead_cons] at h
        rcases List.mem_cons.mp h with rfl | h
        · have hfirst : (0x2c : UInt8) ∉ first := ih (by simp [hrest])
          rw [List.mem_cons,not_or]
          exact ⟨fun heq => hc (beq_iff_eq.mpr heq.symm),hfirst⟩
        · exact ih (by simp [hrest,h])

/-- The pairs of a header that is accepted are pieces. -/
theorem exists_pieces {raws : List Bytes} (hcomma : ∀ raw ∈ raws, (0x2c : UInt8) ∉ raw)
    {out parts : Parts} (h : parsePairs raws out = .ok parts) :
    ∃ pieces : List Piece, pieces.map Piece.text = raws := by
  induction raws generalizing out with
  | nil => exact ⟨[],rfl⟩
  | cons raw raws ih =>
    obtain ⟨kv,hpair,hrest⟩ := bind_eq_ok.mp h
    obtain ⟨p,rfl⟩ := exists_piece (hcomma raw List.mem_cons_self) hpair
    obtain ⟨pieces,rfl⟩ := ih (fun raw hraw => hcomma raw (List.mem_cons_of_mem _ hraw)) hrest
    exact ⟨p :: pieces,rfl⟩

/-- The header is read as its pairs say, the last value of a key counts, and what is not of this
form is rejected as malformed. -/
theorem parseSignatureHeader_exact :
    (∀ pieces : List Piece, pieces ≠ [] → ∃ parts,
      parseSignatureHeader (Piece.join pieces) = .ok parts ∧
        ∀ key, parts.lookup key = lastValue pieces key) ∧
    ∀ header, (∃ pieces : List Piece, pieces ≠ [] ∧ header = Piece.join pieces) ∨
      ∃ detail, parseSignatureHeader header = .error (.signatureMalformed detail) := by
  constructor
  · intro pieces h
    refine ⟨_,parseSignatureHeader_join h,fun key => ?_⟩
    rw [lookup_collect,AList.lookup_empty,Option.or_none]
  · intro header
    cases hpairs : parsePairs (header.splitOn 0x2c) ∅ with
    | error err =>
      obtain ⟨detail,rfl⟩ := parsePairs_error hpairs
      exact .inr ⟨detail,by simp [parseSignatureHeader,hpairs,bind,Except.bind]⟩
    | ok parts =>
      obtain ⟨pieces,hpieces⟩ := exists_pieces (fun raw => comma_not_mem_splitOn) hpairs
      refine .inl ⟨pieces,?_,?_⟩
      · rintro rfl
        have hnil : header.splitOn 0x2c = [] := hpieces.symm
        rw [List.splitOn_eq_splitOnP] at hnil
        exact List.splitOnP_ne_nil _ header hnil
      · rw [Piece.join,hpieces,List.intercalate_splitOn]

example : (parseSignatureHeader (ascii " t = 1 ,v1=ab, v1=c=d")).toOption.map
    (·.lookup (ascii "v1")) = some (some (ascii "c=d")) := by decide +kernel

end ChainKit.Payment
