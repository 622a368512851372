import ChainKit.Lib.Fallible

/-! Readers that take values from the front of a list, and when a reader accepts exactly what a
writer writes. What a reader keeps of the input goes to a buffer that has room for so much. -/
namespace ChainKit.Lib

/-- What is left to read, and what is left of the buffer. -/
structure Source (β : Type) where
  rest : List β
  room : ℕ

abbrev Reader (β ε α : Type) := StateT (Source β) (Except ε) α

/-- How the values of a type are written, how much of the buffer they take, and which of them
there are. -/
structure Format (β α : Type) where
  write : α → List β
  cost : α → ℕ
  Valid : α → Prop

section
variable {β ε α γ : Type}

/-- A reader succeeds exactly where a valid value is written, and leaves what comes after. -/
def Exact (r : Reader β ε α) (F : Format β α) : Prop :=
  ∀ s a s', r s = .ok (a,s') ↔
    F.Valid a ∧ s.rest = F.write a ++ s'.rest ∧ s.room = F.cost a+s'.room

/-- A fixed number of items; `e` is the error for what is there in place of them. -/
def take (e : List β → ε) (n : ℕ) : Reader β ε (List β) := fun s =>
  if n ≤ s.rest.length then .ok (s.rest.take n,⟨s.rest.drop n,s.room⟩) else .error (e s.rest)

def ensure (cond : Prop) [Decidable cond] (e : ε) : Reader β ε Unit := fun s =>
  if cond then .ok ((),s) else .error e

def spend (e : ε) (n : ℕ) : Reader β ε Unit := fun s =>
  if n ≤ s.room then .ok ((),⟨s.rest,s.room-n⟩) else .error e

namespace Exact

theorem take (e : List β → ε) (n : ℕ) :
    Exact (take e n) ⟨id,fun _ => 0,fun l => l.length = n⟩ := by
  rintro ⟨rest,room⟩ l ⟨rest',room'⟩
  simp only [Lib.take,id_eq,Nat.zero_add]
  split_ifs with hn
  · simp only [Except.ok.injEq,Prod.mk.injEq,Source.mk.injEq]
    constructor
    · rintro ⟨rfl,rfl,rfl⟩
      exact ⟨List.length_take_of_le hn,(List.take_append_drop n rest).symm,rfl⟩
    · rintro ⟨rfl,rfl,rfl⟩
      exact ⟨List.take_left,List.drop_left,rfl⟩
  · simp only [false_iff]
    rintro ⟨rfl,rfl,rfl⟩
    apply hn
    simp

theorem ensure (cond : Prop) [Decidable cond] (e : ε) :
    Exact (Lib.ensure cond e : Reader β ε Unit) ⟨fun _ => [],fun _ => 0,fun _ => cond⟩ := by
  rintro ⟨rest,room⟩ u ⟨rest',room'⟩
  by_cases h : cond <;> simp [Lib.ensure,h]

theorem spend (e : ε) (n : ℕ) :
    Exact (Lib.spend e n : Reader β ε Unit) ⟨fun _ => [],fun _ => n,fun _ => True⟩ := by
  rintro ⟨rest,room⟩ u ⟨rest',room'⟩
  simp only [Lib.spend,List.nil_append,true_and]
  split_ifs with hn
  · simp only [Except.ok.injEq,Prod.mk.injEq,Source.mk.injEq,true_and]
    constructor
    · rintro ⟨rfl,rfl⟩
      exact ⟨rfl,by omega⟩
    · rintro ⟨rfl,rfl⟩
      exact ⟨rfl,by omega⟩
  · simp only [false_iff]
    rintro ⟨_,rfl⟩
    omega

theorem pure (a : α) :
    Exact (Pure.pure a : Reader β ε α) ⟨fun _ => [],fun _ => 0,fun a' => a' = a⟩ := by
  rintro ⟨rest,room⟩ a' ⟨rest',room'⟩
  simp [Pure.pure,StateT.pure,Except.pure,eq_comm]

/-- Two formats that agree on the valid values are read alike. -/
theorem congr {r : Reader β ε α} {F G : Format β α} (h : Exact r F)
    (hvalid : ∀ a, G.Valid a ↔ F.Valid a)
    (hwrite : ∀ a, F.Valid a → G.write a = F.write a)
    (hcost : ∀ a, F.Valid a → G.cost a = F.cost a) : Exact r G := by
  intro s a s'
  rw [h s a s',hvalid a]
  refine and_congr_right fun hv => ?_
  rw [hwrite a hv,hcost a hv]

theorem of_valid {r : Reader β ε α} {F : Format β α} {Valid : α → Prop} (h : Exact r F)
    (hvalid : ∀ a, Valid a ↔ F.Valid a) : Exact r ⟨F.write,F.cost,Valid⟩ :=
  h.congr hvalid (fun _ _ => rfl) (fun _ _ => rfl)

theorem bind {r : Reader β ε α} {f : α → Reader β ε γ} {F : Format β α} {G : Format β γ}
    {write : γ → List β} {cost : γ → ℕ} {Q : α → γ → Prop} (hr : Exact r F)
    (hf : ∀ a, F.Valid a → Exact (f a) ⟨write,cost,Q a⟩)
    (hvalid : ∀ c, G.Valid c ↔ ∃ a, F.Valid a ∧ Q a c)
    (hwrite : ∀ a c, F.Valid a → Q a c → G.write c = F.write a ++ write c)
    (hcost : ∀ a c, F.Valid a → Q a c → G.cost c = F.cost a+cost c) : Exact (r >>= f) G := by
  intro s c s'
  have hsplit : (r >>= f) s = .ok (c,s') ↔ ∃ a t, r s = .ok (a,t) ∧ f a t = .ok (c,s') := by
    change (r s >>= fun p => f p.1 p.2) = .ok (c,s') ↔ _
    rw [bind_eq_ok,Prod.exists]
  rw [hsplit,hvalid c]
  constructor
  · rintro ⟨a,t,ha,hc⟩
    obtain ⟨hv,hrest,hroom⟩ := (hr s a t).mp ha
    obtain ⟨hQ,hrest',hroom'⟩ := (hf a hv t c s').mp hc
    refine ⟨⟨a,hv,hQ⟩,?_,?_⟩
    · rw [hwrite a c hv hQ,hrest,hrest',List.append_assoc]
    · rw [hcost a c hv hQ,hroom,hroom',Nat.add_assoc]
  · rintro ⟨⟨a,hv,hQ⟩,hrest,hroom⟩
    refine ⟨a,⟨write c ++ s'.rest,cost c+s'.room⟩,?_,?_⟩
    · refine (hr _ _ _).mpr ⟨hv,?_,?_⟩
      · rw [hrest,hwrite a c hv hQ,List.append_assoc]
      · rw [hroom,hcost a c hv hQ,Nat.add_assoc]
    · exact (hf _ hv _ _ _).mpr ⟨hQ,rfl,rfl⟩

/-- One reader after another, where the value in the end tells what the first one has read. -/
theorem bind_by {r : Reader β ε α} {f : α → Reader β ε γ} {F : Format β α} {write : γ → List β}
    {cost : γ → ℕ} {Q : α → γ → Prop} (hr : Exact r F) (π : γ → α)
    (hf : ∀ a, F.Valid a → Exact (f a) ⟨write,cost,Q a⟩) (hπ : ∀ a c, Q a c → π c = a) :
    Exact (r >>= f) ⟨fun c => F.write (π c) ++ write c,fun c => F.cost (π c)+cost c,
      fun c => F.Valid (π c) ∧ Q (π c) c⟩ := by
  refine hr.bind hf ?_ ?_ ?_
  · intro c
    constructor
    · exact fun h => ⟨π c,h⟩
    · rintro ⟨a,hv,hQ⟩
      obtain rfl := hπ a c hQ
      exact ⟨hv,hQ⟩
  · intro a c _ hQ
    obtain rfl := hπ a c hQ
    rfl
  · intro a c _ hQ
    obtain rfl := hπ a c hQ
    rfl

theorem map {r : Reader β ε α} {F : Format β α} (hr : Exact r F) {g : α → γ} {h : γ → α}
    (hg : ∀ a, F.Valid a → h (g a) = a) (hh : ∀ c, F.Valid (h c) → g (h c) = c) :
    Exact (r >>= fun a => Pure.pure (g a))
      ⟨fun c => F.write (h c),fun c => F.cost (h c),fun c => F.Valid (h c)⟩ := by
  refine hr.bind (fun a _ => pure (g a)) ?_ ?_ ?_
  · intro c
    constructor
    · exact fun hc => ⟨h c,hc,(hh c hc).symm⟩
    · rintro ⟨a,ha,rfl⟩
      change F.Valid (h (g a))
      rwa [hg a ha]
  · rintro a c ha rfl
    change F.write (h (g a)) = F.write a ++ []
    rw [hg a ha,List.append_nil]
  · rintro a c ha rfl
    change F.cost (h (g a)) = F.cost a+0
    rw [hg a ha,Nat.add_zero]

theorem ensure_bind {cond : Prop} [Decidable cond] {e : ε} {r : Reader β ε α}
    {F : Format β α} (hr : Exact r F) :
    Exact (Lib.ensure cond e >>= fun _ => r) ⟨F.write,F.cost,fun a => cond ∧ F.Valid a⟩ := by
  refine (ensure cond e).bind (fun _ _ => hr) ?_ ?_ ?_
  · simp
  · simp
  · simp

theorem mapM {δ : Type} {f : δ → Reader β ε α} {write : α → List β} {cost : α → ℕ}
    {P : α → Prop} (π : α → δ) {l : List δ}
    (hf : ∀ d ∈ l, Exact (f d) ⟨write,cost,fun a => π a = d ∧ P a⟩) :
    Exact (l.mapM f) ⟨List.flatMap write,fun as => (as.map cost).sum,
      fun as => as.map π = l ∧ ∀ a ∈ as, P a⟩ := by
  induction l with
  | nil =>
    rw [List.mapM_nil]
    refine (pure ([] : List α)).congr ?_ ?_ ?_
    · intro as
      constructor
      · rintro ⟨hnil,_⟩
        exact List.map_eq_nil_iff.mp hnil
      · rintro rfl
        simp
    · rintro as rfl
      rfl
    · rintro as rfl
      rfl
  | cons d l ih =>
    rw [List.mapM_cons]
    have hrest := ih fun d' hd' => hf d' (List.mem_cons_of_mem _ hd')
    -- What is read after the first element is the tail of the whole.
    have htail (a : α) : Exact (l.mapM f >>= fun as => Pure.pure (a :: as))
        ⟨fun as => as.tail.flatMap write,fun as => (as.tail.map cost).sum,
          fun as => ∃ as', as = a :: as' ∧ as'.map π = l ∧ ∀ a' ∈ as', P a'⟩ := by
      refine hrest.bind (fun as' _ => pure (a :: as')) ?_ ?_ ?_
      · intro as
        constructor
        · rintro ⟨as',has,hvalid⟩
          exact ⟨as',hvalid,has⟩
        · rintro ⟨as',hvalid,has⟩
          exact ⟨as',has,hvalid⟩
      · rintro as' as _ rfl
        simp
      · rintro as' as _ rfl
        simp
    refine (hf d List.mem_cons_self).bind (fun a _ => htail a) ?_ ?_ ?_
    · intro as
      constructor
      · rintro ⟨hmap,hP⟩
        cases as with
        | nil => cases hmap
        | cons a as' =>
          rw [List.map_cons,List.cons.injEq] at hmap
          rw [List.forall_mem_cons] at hP
          exact ⟨a,⟨hmap.1,hP.1⟩,as',rfl,hmap.2,hP.2⟩
      · rintro ⟨a,⟨hd,ha⟩,as',rfl,hmap,hP⟩
        refine ⟨?_,List.forall_mem_cons.mpr ⟨ha,hP⟩⟩
        rw [List.map_cons,hd,hmap]
    · rintro a as _ ⟨as',rfl,_⟩
      rfl
    · rintro a as _ ⟨as',rfl,_⟩
      rfl

theorem replicate {r : Reader β ε α} {F : Format β α} (hr : Exact r F) (n : ℕ) :
    Exact ((List.replicate n ()).mapM fun _ => r) ⟨List.flatMap F.write,
      fun as => (as.map F.cost).sum,fun as => as.length = n ∧ ∀ a ∈ as, F.Valid a⟩ := by
  have hunit : Exact r ⟨F.write,F.cost,fun a => () = () ∧ F.Valid a⟩ :=
    hr.of_valid fun _ => by simp
  refine (mapM (fun _ => ()) fun _ _ => hunit).of_valid ?_
  intro as
  have hlength : as.map (fun _ => ()) = List.replicate n () ↔ as.length = n := by
    rw [List.eq_replicate_iff,List.length_map]
    simp
  exact and_congr_left' hlength.symm

end Exact
end
end ChainKit.Lib
