import ChainKit.Manager

/-! The registration of providers: sequences of `addProvider` calls on one manager. -/
namespace ChainKit
variable {ι ε : Type}

/-- The arguments of one `addProvider` call and the clock readings it takes. -/
structure Registration (ι : Type) where
  provider : Option ι
  priority : ℤ
  name : String
  changedAt : ℤ := 0
  checkedAt : ℤ := 0
  refilledAt : ℤ := 0

/-- The entry that the call appends, where the provider is not nil. -/
def Registration.entry (reg : Registration ι) : Option (ProviderConfig ι) :=
  reg.provider.map (fun provider => ⟨provider,reg.priority,reg.name⟩)

def registered (regs : List (Registration ι)) : List (ProviderConfig ι) :=
  regs.filterMap Registration.entry

namespace ProviderManager
variable (slice : PrioritySort ι)

def register (pm : ProviderManager ι ε) (reg : Registration ι) : ProviderManager ι ε :=
  pm.addProvider slice reg.provider reg.priority reg.name reg.changedAt reg.checkedAt
    reg.refilledAt

def registerMany (pm : ProviderManager ι ε) (regs : List (Registration ι)) :
    ProviderManager ι ε := regs.foldl (register slice) pm

theorem register_perm (pm : ProviderManager ι ε) (reg : Registration ι) :
    (pm.register slice reg).providers.Perm (pm.providers ++ reg.entry.toList) := by
  cases hp : reg.provider with
  | none => simp [register,addProvider,Registration.entry,hp]
  | some provider =>
    simp only [register,addProvider,Registration.entry,hp,Option.map_some,Option.toList_some]
    exact slice.perm _

theorem register_frame (pm : ProviderManager ι ε) (reg : Registration ι) :
    (pm.register slice reg).config = pm.config ∧
      (pm.register slice reg).selector = pm.selector ∧
      (pm.register slice reg).scoringEngine = pm.scoringEngine ∧
      (pm.register slice reg).engines = pm.engines := by
  cases hp : reg.provider with
  | none => simp [register,addProvider,hp]
  | some provider => simp [register,addProvider,hp]

theorem register_sorted (pm : ProviderManager ι ε) (reg : Registration ι)
    (h : pm.providers.Pairwise (fun p q => p.priority ≤ q.priority)) :
    (pm.register slice reg).providers.Pairwise (fun p q => p.priority ≤ q.priority) := by
  cases hp : reg.provider with
  | none => simpa [register,addProvider,hp] using h
  | some provider =>
    simp only [register,addProvider,hp]
    exact slice.sorted _

theorem registerMany_perm (pm : ProviderManager ι ε) (regs : List (Registration ι)) :
    (pm.registerMany slice regs).providers.Perm (pm.providers ++ registered regs) := by
  induction regs generalizing pm with
  | nil => simp [registerMany,registered]
  | cons reg regs ih =>
    have hreg : registered (reg :: regs) = reg.entry.toList ++ registered regs := by
      cases h : reg.entry with
      | none => simp [registered,h]
      | some p => simp [registered,h]
    rw [hreg,← List.append_assoc]
    exact (ih (pm.register slice reg)).trans ((register_perm slice pm reg).append_right _)

/-- The list of a chain is kept in the order of the priorities. -/
theorem registerMany_sorted (pm : ProviderManager ι ε) (regs : List (Registration ι))
    (h : pm.providers.Pairwise (fun p q => p.priority ≤ q.priority)) :
    (pm.registerMany slice regs).providers.Pairwise (fun p q => p.priority ≤ q.priority) := by
  induction regs generalizing pm with
  | nil => exact h
  | cons reg regs ih => exact ih _ (register_sorted slice pm reg h)

theorem registerMany_frame (pm : ProviderManager ι ε) (regs : List (Registration ι)) :
    (pm.registerMany slice regs).config = pm.config ∧
      (pm.registerMany slice regs).selector = pm.selector ∧
      (pm.registerMany slice regs).scoringEngine = pm.scoringEngine ∧
      (pm.registerMany slice regs).engines = pm.engines := by
  induction regs generalizing pm with
  | nil => exact ⟨rfl,rfl,rfl,rfl⟩
  | cons reg regs ih =>
    obtain ⟨hc,hs,he,hes⟩ := ih (pm.register slice reg)
    obtain ⟨hc',hs',he',hes'⟩ := register_frame slice pm reg
    exact ⟨hc.trans hc',hs.trans hs',he.trans he',hes.trans hes'⟩

end ProviderManager
end ChainKit
