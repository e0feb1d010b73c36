import Mathlib.Tactic.Simps.Basic
import Cheetah.PedigreeLabels

/-! The stack frames of all workers as one cactus stack, in which every frame has the pedigree frame
of the spawn that it runs in. -/
namespace Cheetah
open Function (update)

/-- The frames on the cactus stack, with the pedigree frame of each. -/
structure Cactus (κ V : Type) where
  live : FrameId → Prop
  detached : FrameId → Bool
  code : FrameId → Code κ V
  callParent : FrameId → Option FrameId
  position : FrameId → ℕ
  addr : FrameId → FrameAddr
  mem : PedigreeMem

/-- The pedigrees of the running functions after the first `n` events of the serial execution. -/
def serialLabels (table : ℕ → BitVec 64) (root : PedigreeFrame) (events : List PedigreeEvent)
    (n : ℕ) : List PedigreeLabel :=
  PedigreeLabel.run table [rootLabel root] (events.take n)

namespace Cactus

variable {κ V : Type}

/-- A frame is on the stack without the frame of a function that it has called. -/
def Current (C : Cactus κ V) (f : FrameId) : Prop :=
  C.live f ∧ ∀ g, C.live g → C.callParent g = some f → C.detached g = true

/-- The frames hang together as calls and spawns, and each one that is not in a call has the
pedigree of its place in the serial execution. -/
structure Ok (C : Cactus κ V) (table : ℕ → BitVec 64) (bumps : κ → Bool) (root : PedigreeFrame)
    (events : List PedigreeEvent) : Prop where
  older : ∀ f g, C.live f → C.callParent f = some g → g < f
  spawned : ∀ f, C.live f → C.detached f = true → ∃ g, C.callParent f = some g ∧ C.live g ∧
    (C.mem (C.addr f)).pedigreeParent = some (C.addr g) ∧ C.addr f ≠ .root
  called : ∀ f, C.live f → C.detached f = false → f ≠ 0 → ∃ g, C.callParent f = some g ∧ C.live g ∧
    C.addr f = C.addr g ∧ C.position g = C.position f + ((C.code f).events bumps).length
  bottom : C.live 0 → C.detached 0 = false ∧ C.addr 0 = .root
  rootParent : (C.mem .root).pedigreeParent = none
  distinct : ∀ f g, C.live f → C.live g → C.detached f = true → C.detached g = true →
    C.addr f = C.addr g → f = g
  single : ∀ f g, C.Current f → C.Current g → C.addr f = C.addr g → f = g
  reads : ∀ f, C.Current f → ∃ l ls, serialLabels table root events (C.position f) = l :: ls ∧
    Reads C.mem (C.addr f) l
  remaining : ∀ f, C.live f → ∃ later,
    events.drop (C.position f) = (C.code f).events bumps ++ later

/-- The rank of a frame's pedigree goes up, and the frame goes on with other code. -/
@[simps]
def bump (C : Cactus κ V) (table : ℕ → BitVec 64) (f : FrameId) (rest : Code κ V) : Cactus κ V :=
  { C with
    code := update C.code f rest
    position := update C.position f (C.position f + 1)
    mem := extendSync table C.mem (C.addr f) }

/-- A frame is entered above `f`. -/
@[simps]
def push (C : Cactus κ V) (f new : FrameId) (detached : Bool) (code rest : Code κ V)
    (position next : ℕ) (a : FrameAddr) (mem : PedigreeMem) : Cactus κ V where
  live := fun g => g = new ∨ C.live g
  detached := update C.detached new detached
  code := update (update C.code f rest) new code
  callParent := update C.callParent new (some f)
  position := update (update C.position new position) f next
  addr := update C.addr new a
  mem := mem

/-- A function is called, with the pedigree frame of its caller. -/
def call (C : Cactus κ V) (bumps : κ → Bool) (f new : FrameId) (callee rest : Code κ V) :
    Cactus κ V :=
  C.push f new false callee rest (C.position f) (C.position f + (callee.events bumps).length)
    (C.addr f) C.mem

/-- A spawn helper is entered, with a pedigree frame of its own. -/
def spawn (C : Cactus κ V) (table : ℕ → BitVec 64) (bumps : κ → Bool) (f new : FrameId)
    (child rest : Code κ V) (a : FrameAddr) : Cactus κ V :=
  C.push f new true child rest (C.position f + 1)
    (C.position f + 1 + (child.events bumps).length + 1) a (extendSpawn table C.mem (C.addr f) a)

/-- A frame is left, after its implicit sync. -/
@[simps]
def leave (C : Cactus κ V) (table : ℕ → BitVec 64) (f : FrameId) : Cactus κ V :=
  { C with
    live := fun g => C.live g ∧ g ≠ f
    mem := extendSync table C.mem (C.addr f) }

section Rules

variable {C C' : Cactus κ V} {table : ℕ → BitVec 64} {bumps : κ → Bool} {root : PedigreeFrame}
  {events : List PedigreeEvent} {f new : FrameId}

theorem serialLabels_add {n k : ℕ} : serialLabels table root events (n + k) =
    PedigreeLabel.run table (serialLabels table root events n) ((events.drop n).take k) := by
  rw [serialLabels, List.take_add, PedigreeLabel.run_append, serialLabels]

/-- The next event of a frame, in the serial execution. -/
theorem serialLabels_succ {n : ℕ} {e : PedigreeEvent} {later : List PedigreeEvent}
    (h : events.drop n = e :: later) : serialLabels table root events (n + 1) =
      PedigreeLabel.step table (serialLabels table root events n) e := by
  rw [serialLabels_add, h]
  rfl

theorem drop_of_append {n : ℕ} {done later : List PedigreeEvent}
    (h : events.drop n = done ++ later) : events.drop (n + done.length) = later := by
  rw [← List.drop_drop, h, List.drop_left]

/-- Nothing happens to the frames on the stack. -/
theorem Ok.keep (h : C.Ok table bumps root events) (hlive : ∀ g, C'.live g ↔ C.live g)
    (hdetached : ∀ g, C.live g → C'.detached g = C.detached g)
    (hcode : ∀ g, C.live g → (C'.code g).events bumps = (C.code g).events bumps)
    (hcallParent : ∀ g, C.live g → C'.callParent g = C.callParent g)
    (hposition : ∀ g, C.live g → C'.position g = C.position g)
    (haddr : ∀ g, C.live g → C'.addr g = C.addr g) (hmem : C'.mem = C.mem) :
    C'.Ok table bumps root events := by
  have hcurrent : ∀ g, C'.Current g → C.Current g := by
    intro g hg
    refine ⟨(hlive g).mp hg.1, fun k hk hparent => ?_⟩
    rw [← hdetached k hk]
    exact hg.2 k ((hlive k).mpr hk) ((hcallParent k hk).trans hparent)
  obtain ⟨older, spawned, called, bottom, rootParent, distinct, single, reads, remaining⟩ := h
  constructor
  case reads =>
    intro g hg
    have hg' := hcurrent g hg
    rw [hposition g hg'.1, hmem, haddr g hg'.1]
    exact reads g hg'
  case remaining =>
    intro g hg
    rw [hlive] at hg
    rw [hposition g hg, hcode g hg]
    exact remaining g hg
  case rootParent => rwa [hmem]
  case bottom =>
    intro hzero
    rw [hlive] at hzero
    rw [hdetached 0 hzero, haddr 0 hzero]
    exact bottom hzero
  case single =>
    intro g k hg hk haddr'
    have hg' := hcurrent g hg
    have hk' := hcurrent k hk
    rw [haddr g hg'.1, haddr k hk'.1] at haddr'
    exact single g k hg' hk' haddr'
  all_goals
    simp only [hlive]
    grind

/-- The pedigree frames of the frames on the stack lead to each other. By induction along the calls,
down to the spawn helper or the root. -/
theorem Ok.closed (h : C.Ok table bumps root events) (hf : C.live f) {b : FrameAddr}
    (hb : (C.mem (C.addr f)).pedigreeParent = some b) : ∃ g, C.live g ∧ C.addr g = b := by
  induction f using Nat.strong_induction_on with
  | _ f ih =>
    cases hd : C.detached f with
    | true =>
      obtain ⟨g, -, hg, hparent, -⟩ := h.spawned f hf hd
      rw [hparent] at hb
      exact ⟨g, hg, Option.some.inj hb⟩
    | false =>
      by_cases hzero : f = 0
      · subst hzero
        rw [(h.bottom hf).2, h.rootParent] at hb
        cases hb
      · obtain ⟨g, hparent, hg, haddr, -⟩ := h.called f hf hd hzero
        rw [haddr] at hb
        exact ih g (h.older f g hf hparent) hg hb

/-- Every pedigree frame in use but the root is that of a spawn helper on the stack. -/
theorem Ok.owner (h : C.Ok table bumps root events) (hf : C.live f) (hroot : C.addr f ≠ .root) :
    ∃ g, C.live g ∧ C.detached g = true ∧ C.addr g = C.addr f := by
  induction f using Nat.strong_induction_on with
  | _ f ih =>
    cases hd : C.detached f with
    | true => exact ⟨f, hf, hd, rfl⟩
    | false =>
      by_cases hzero : f = 0
      · subst hzero
        exact absurd (h.bottom hf).2 hroot
      · obtain ⟨g, hparent, hg, haddr, -⟩ := h.called f hf hd hzero
        rw [haddr] at hroot ⊢
        exact ih g (h.older f g hf hparent) hg hroot

/-- A spawn helper with nothing above it has its pedigree frame to itself. -/
theorem Ok.alone (h : C.Ok table bumps root events) (hf : C.live f) (hd : C.detached f = true)
    (htop : ∀ g, C.live g → C.callParent g ≠ some f) {g : FrameId} (hg : C.live g)
    (haddr : C.addr g = C.addr f) : g = f := by
  induction g using Nat.strong_induction_on with
  | _ g ih =>
    cases hdg : C.detached g with
    | true => exact h.distinct g f hg hf hdg hd haddr
    | false =>
      obtain ⟨-, -, -, -, hroot⟩ := h.spawned f hf hd
      by_cases hzero : g = 0
      · subst hzero
        exact absurd (haddr.symm.trans (h.bottom hg).2) hroot
      · obtain ⟨k, hparent, hk, hsame, -⟩ := h.called g hg hdg hzero
        obtain rfl := ih k (h.older g k hg hparent) hk (hsame.symm.trans haddr)
        exact absurd hparent (htop g hg)

/-- The strand of a frame executes a sync or bumps its rank. -/
theorem Ok.bump (h : C.Ok table bumps root events) (hf : C.Current f) {e : PedigreeEvent}
    {rest : Code κ V} (hcode : (C.code f).events bumps = e :: rest.events bumps)
    (he : e ≠ .spawn ∧ e ≠ .ret) : (C.bump table f rest).Ok table bumps root events := by
  have hcurrent : ∀ g, (C.bump table f rest).Current g ↔ C.Current g := fun g => Iff.rfl
  obtain ⟨hlivef, htop⟩ := hf
  have hself : C.Current f := ⟨hlivef, htop⟩
  obtain ⟨later, hlater⟩ := h.remaining f hlivef
  rw [hcode, List.cons_append] at hlater
  have hcallees : ∀ g, C.live g → C.detached g = false → C.callParent g ≠ some f := by
    intro g hg hd hparent
    rw [htop g hg hparent] at hd
    cases hd
  constructor
  case older => exact h.older
  case distinct => exact h.distinct
  case single => exact h.single
  case bottom => exact h.bottom
  case rootParent => exact extendSync_pedigree.2.trans h.rootParent
  case spawned =>
    intro g hg hd
    obtain ⟨k, hparent, hk, hmem, hroot⟩ := h.spawned g hg hd
    exact ⟨k, hparent, hk, extendSync_pedigree.2.trans hmem, hroot⟩
  case called =>
    intro g hg hd hzero
    obtain ⟨k, hparent, hk, haddr, hposition⟩ := h.called g hg hd hzero
    have hkf : k ≠ f := fun hkf => hcallees g hg hd (hkf ▸ hparent)
    refine ⟨k, hparent, hk, haddr, ?_⟩
    by_cases hgf : g = f
    · subst hgf
      rw [bump_position, bump_position, bump_code, Function.update_of_ne hkf, Function.update_self,
        Function.update_self, hposition, hcode, List.length_cons]
      omega
    · rw [bump_position, bump_position, bump_code, Function.update_of_ne hkf,
        Function.update_of_ne hgf, Function.update_of_ne hgf, hposition]
  case reads =>
    intro g hg
    obtain ⟨l, ls, hlabels, hreads⟩ := h.reads g hg
    by_cases hgf : g = f
    · subst hgf
      refine ⟨l.bump table, ls, ?_, hreads.bump⟩
      rw [bump_position, Function.update_self, serialLabels_succ hlater, hlabels]
      cases e with
      | spawn => exact absurd rfl he.1
      | ret => exact absurd rfl he.2
      | sync | bump | dprand => rfl
    · have hne : C.addr g ≠ C.addr f := fun haddr => hgf (h.single g f hg hself haddr)
      refine ⟨l, ls, ?_, hreads.bump_other hne⟩
      rw [bump_position, Function.update_of_ne hgf, hlabels]
  case remaining =>
    intro g hg
    by_cases hgf : g = f
    · subst hgf
      refine ⟨later, ?_⟩
      rw [bump_position, bump_code, Function.update_self, Function.update_self]
      have hevents : events.drop (C.position g) = [e] ++ (rest.events bumps ++ later) := hlater
      exact drop_of_append hevents
    · rw [bump_position, bump_code, Function.update_of_ne hgf, Function.update_of_ne hgf]
      exact h.remaining g hg

/-- What is common to calls and spawns: the new frame and the one below it have the pedigrees of
their places, and nothing else changes. -/
theorem Ok.push (h : C.Ok table bumps root events) (hf : C.Current f)
    (hnew : ∀ g, C.live g → g < new) {detached : Bool} {code rest : Code κ V} {position next : ℕ}
    {a : FrameAddr} {mem : PedigreeMem}
    (hnext : C.position f + ((C.code f).events bumps).length = next + (rest.events bumps).length)
    (hcalled : detached = false → a = C.addr f ∧ next = position + (code.events bumps).length)
    (hspawned : detached = true → a ≠ .root ∧ (mem a).pedigreeParent = some (C.addr f) ∧
      ∀ g, C.live g → C.addr g ≠ a)
    (hroot : (mem .root).pedigreeParent = none)
    (hparents : ∀ g, C.live g →
      (mem (C.addr g)).pedigreeParent = (C.mem (C.addr g)).pedigreeParent)
    (hself : ∃ l ls, serialLabels table root events position = l :: ls ∧ Reads mem a l)
    (hbelow : detached = true →
      ∃ l ls, serialLabels table root events next = l :: ls ∧ Reads mem (C.addr f) l)
    (hreads : ∀ g l, C.Current g → g ≠ f → Reads C.mem (C.addr g) l → Reads mem (C.addr g) l)
    (hlater : ∃ later, events.drop position = code.events bumps ++ later)
    (hrest : ∃ later, events.drop next = rest.events bumps ++ later) :
    (C.push f new detached code rest position next a mem).Ok table bumps root events := by
  obtain ⟨hlivef, htop⟩ := hf
  have hcurrentf : C.Current f := ⟨hlivef, htop⟩
  have hne : ∀ g, C.live g → g ≠ new := fun g hg => (hnew g hg).ne
  have hnewf := (hne f hlivef).symm
  have hnewpos : 0 < new := (Nat.zero_le f).trans_lt (hnew f hlivef)
  have hcurrent : ∀ g, (C.push f new detached code rest position next a mem).Current g →
      g = new ∨ C.Current g ∧ (detached = false → g ≠ f) := by
    rintro g ⟨hg, hg'⟩
    refine hg.imp_right fun hg => ⟨⟨hg, fun k hk hk' => ?_⟩, ?_⟩
    · have hkept := hg' k (.inr hk)
      rw [push_callParent, push_detached, Function.update_of_ne (hne k hk),
        Function.update_of_ne (hne k hk)] at hkept
      exact hkept hk'
    · rintro rfl rfl
      simpa using hg' new (.inl rfl) (by simp)
  have haddr : ∀ g, C.live g →
      (C.push f new detached code rest position next a mem).addr g = C.addr g := by
    intro g hg
    rw [push_addr, Function.update_of_ne (hne g hg)]
  have hnewaddr : (C.push f new detached code rest position next a mem).addr new = a := by
    rw [push_addr, Function.update_self]
  have hshared : ∀ g, C.Current g → (detached = false → g ≠ f) → C.addr g ≠ a := by
    intro g hg hgf hsame
    cases detached with
    | false =>
      obtain ⟨rfl, -⟩ := hcalled rfl
      exact hgf rfl (h.single g f hg hcurrentf hsame)
    | true => exact (hspawned rfl).2.2 g hg.1 hsame
  constructor
  case older =>
    rintro g k (rfl | hg) hk
    · rw [push_callParent, Function.update_self] at hk
      exact Option.some.inj hk ▸ hnew f hlivef
    · rw [push_callParent, Function.update_of_ne (hne g hg)] at hk
      exact h.older g k hg hk
  case spawned =>
    rintro g (rfl | hg) hd
    · rw [push_detached, Function.update_self] at hd
      obtain ⟨hroot, hparent, -⟩ := hspawned hd
      rw [hnewaddr]
      refine ⟨f, ?_, .inr hlivef, ?_, hroot⟩
      · rw [push_callParent, Function.update_self]
      · rw [haddr f hlivef]
        exact hparent
    · rw [push_detached, Function.update_of_ne (hne g hg)] at hd
      obtain ⟨k, hk, hlivek, hmem, hroot⟩ := h.spawned g hg hd
      rw [haddr g hg]
      refine ⟨k, ?_, .inr hlivek, ?_, hroot⟩
      · rw [push_callParent, Function.update_of_ne (hne g hg), hk]
      · rw [haddr k hlivek]
        exact (hparents g hg).trans hmem
  case called =>
    rintro g (rfl | hg) hd hzero
    · rw [push_detached, Function.update_self] at hd
      obtain ⟨hsame, hlen⟩ := hcalled hd
      refine ⟨f, ?_, .inr hlivef, ?_, ?_⟩
      · rw [push_callParent, Function.update_self]
      · rw [haddr f hlivef, hnewaddr, hsame]
      · rw [push_position, push_position, push_code, Function.update_self, Function.update_self,
          Function.update_of_ne hnewf, Function.update_self, hlen]
    · rw [push_detached, Function.update_of_ne (hne g hg)] at hd
      obtain ⟨k, hk, hlivek, hsame, hposition⟩ := h.called g hg hd hzero
      have hkf : k ≠ f := by
        rintro rfl
        rw [htop g hg hk] at hd
        cases hd
      refine ⟨k, ?_, .inr hlivek, ?_, ?_⟩
      · rw [push_callParent, Function.update_of_ne (hne g hg), hk]
      · rw [haddr g hg, haddr k hlivek, hsame]
      · rw [push_position, Function.update_of_ne hkf, Function.update_of_ne (hne k hlivek),
          hposition, push_position, push_code, Function.update_of_ne (hne g hg)]
        by_cases hgf : g = f
        · subst hgf
          rw [Function.update_self, Function.update_self, hnext]
        · rw [Function.update_of_ne hgf, Function.update_of_ne (hne g hg),
            Function.update_of_ne hgf]
  case bottom =>
    rintro (hzero | hzero)
    · exact absurd hzero hnewpos.ne
    · rw [haddr 0 hzero, push_detached, Function.update_of_ne hnewpos.ne]
      exact h.bottom hzero
  case rootParent => exact hroot
  case distinct =>
    rintro g k (rfl | hg) hk hd hdk hsame
    · rw [push_detached, Function.update_self] at hd
      rcases hk with rfl | hk
      · rfl
      · rw [hnewaddr, haddr k hk] at hsame
        exact absurd hsame.symm ((hspawned hd).2.2 k hk)
    · rw [push_detached, Function.update_of_ne (hne g hg)] at hd
      rw [haddr g hg] at hsame
      rcases hk with rfl | hk
      · rw [push_detached, Function.update_self] at hdk
        rw [hnewaddr] at hsame
        exact absurd hsame ((hspawned hdk).2.2 g hg)
      · rw [push_detached, Function.update_of_ne (hne k hk)] at hdk
        rw [haddr k hk] at hsame
        exact h.distinct g k hg hk hd hdk hsame
  case single =>
    intro g k hg hk hsame
    rcases hcurrent g hg with rfl | ⟨hg', hgf⟩
    · rcases hcurrent k hk with rfl | ⟨hk', hkf⟩
      · rfl
      · rw [hnewaddr, haddr k hk'.1] at hsame
        exact absurd hsame.symm (hshared k hk' hkf)
    · rcases hcurrent k hk with rfl | ⟨hk', hkf⟩
      · rw [hnewaddr, haddr g hg'.1] at hsame
        exact absurd hsame (hshared g hg' hgf)
      · rw [haddr g hg'.1, haddr k hk'.1] at hsame
        exact h.single g k hg' hk' hsame
  case reads =>
    intro g hg
    rcases hcurrent g hg with rfl | ⟨hg', hgf⟩
    · rw [push_position, Function.update_of_ne hnewf, Function.update_self, hnewaddr]
      exact hself
    · rw [haddr g hg'.1, push_position]
      by_cases hgf' : g = f
      · subst hgf'
        rw [Function.update_self]
        apply hbelow
        by_contra hd
        exact hgf (by simpa using hd) rfl
      · rw [Function.update_of_ne hgf', Function.update_of_ne (hne g hg'.1)]
        obtain ⟨l, ls, hlabels, hl⟩ := h.reads g hg'
        exact ⟨l, ls, hlabels, hreads g l hg' hgf' hl⟩
  case remaining =>
    rintro g (rfl | hg)
    · rw [push_position, Function.update_of_ne hnewf, Function.update_self, push_code,
        Function.update_self]
      exact hlater
    · rw [push_position, push_code, Function.update_of_ne (hne g hg)]
      by_cases hgf : g = f
      · subst hgf
        rw [Function.update_self, Function.update_self]
        exact hrest
      · rw [Function.update_of_ne hgf, Function.update_of_ne (hne g hg), Function.update_of_ne hgf]
        exact h.remaining g hg

/-- A function is called by a frame that is in no call. -/
theorem Ok.call (h : C.Ok table bumps root events) (hf : C.Current f)
    (hnew : ∀ g, C.live g → g < new) {callee rest : Code κ V}
    (hcode : C.code f = .call callee rest) :
    (C.call bumps f new callee rest).Ok table bumps root events := by
  obtain ⟨later, hlater⟩ := h.remaining f hf.1
  rw [hcode, Code.events, List.append_assoc] at hlater
  apply h.push hf hnew
  case hnext =>
    rw [hcode, Code.events, List.length_append]
    omega
  case hcalled => exact fun _ => ⟨rfl, rfl⟩
  case hspawned | hbelow => exact fun hd => absurd hd Bool.false_ne_true
  case hroot => exact h.rootParent
  case hparents => exact fun g _ => rfl
  case hself => exact h.reads f hf
  case hreads => exact fun g l _ _ hl => hl
  case hlater => exact ⟨_, hlater⟩
  case hrest => exact ⟨later, drop_of_append hlater⟩

/-- A child is spawned, with a pedigree frame that nobody has. -/
theorem Ok.spawn (h : C.Ok table bumps root events) (hf : C.Current f)
    (hnew : ∀ g, C.live g → g < new) {child rest : Code κ V} {a : FrameAddr}
    (hcode : C.code f = .spawn child rest) (hfree : ∀ g, C.live g → C.addr g ≠ a)
    (hroot : a ≠ .root) : (C.spawn table bumps f new child rest a).Ok table bumps root events := by
  obtain ⟨later, hlater⟩ := h.remaining f hf.1
  obtain ⟨l, ls, hlabels, hl⟩ := h.reads f hf
  rw [hcode, Code.events, List.append_assoc, List.cons_append] at hlater
  have hclosed : ∀ b c, (∃ g, C.live g ∧ C.addr g = b) → (C.mem b).pedigreeParent = some c →
      ∃ g, C.live g ∧ C.addr g = c := by
    rintro b c ⟨g, hg, rfl⟩ hc
    exact h.closed hg hc
  have hnot : ¬ ∃ g, C.live g ∧ C.addr g = a := by
    rintro ⟨g, hg, haddr⟩
    exact hfree g hg haddr
  have hfa := hfree f hf.1
  have hused : ∃ g, C.live g ∧ C.addr g = C.addr f := ⟨f, hf.1, rfl⟩
  apply h.push hf hnew
  case hnext =>
    rw [hcode, Code.events, List.length_append, List.length_cons, List.length_cons]
    omega
  case hcalled => exact fun hd => absurd hd.symm Bool.false_ne_true
  case hspawned =>
    intro _
    refine ⟨hroot, ?_, hfree⟩
    rw [extendSpawn_child hfa, PedigreeFrame.child]
  case hroot =>
    rw [extendSpawn_eq_sync hfa (Ne.symm hroot), extendSync_pedigree.2]
    exact h.rootParent
  case hparents =>
    intro g hg
    rw [extendSpawn_eq_sync hfa (hfree g hg), extendSync_pedigree.2]
  case hself =>
    refine ⟨l.child table, l.bump table :: ls, ?_, hl.child hused hclosed hnot⟩
    rw [serialLabels_succ hlater, hlabels]
    rfl
  case hbelow =>
    intro _
    refine ⟨l.bump table, ls, ?_, hl.bump.push hused hclosed hnot hused⟩
    have hchild : (events.drop (C.position f)).take ((child.events bumps).length + 2) =
        .spawn :: child.events bumps ++ .ret :: [] := by
      rw [hlater, List.take_succ_cons, List.take_append]
      simp
    rw [Nat.add_assoc, Nat.add_assoc, Nat.add_comm 1, Nat.add_assoc, serialLabels_add, hchild,
      hlabels, PedigreeLabel.run_child]
    rfl
  case hreads =>
    intro g l' hg hgf hl'
    have hne : C.addr g ≠ C.addr f := fun haddr => hgf (h.single g f hg hf haddr)
    exact (hl'.bump_other hne).push ⟨g, hg.1, rfl⟩ hclosed hnot hused
  case hlater =>
    have hevents : events.drop (C.position f) =
        [.spawn] ++ (child.events bumps ++ .ret :: (rest.events bumps ++ later)) := by
      simpa using hlater
    exact ⟨_, drop_of_append hevents⟩
  case hrest =>
    refine ⟨later, ?_⟩
    have hevents : events.drop (C.position f) =
        (.spawn :: child.events bumps ++ [.ret]) ++ (rest.events bumps ++ later) := by
      simpa using hlater
    rw [← drop_of_append hevents]
    congr 1
    simp
    omega

/-- A frame with nothing above it is left; a caller goes on where its callee has ended. -/
theorem Ok.leave (h : C.Ok table bumps root events) (hf : C.Current f)
    (htop : ∀ g, C.live g → C.callParent g ≠ some f) (hcode : C.code f = .done) :
    (C.leave table f).Ok table bumps root events := by
  obtain ⟨later, hlater⟩ := h.remaining f hf.1
  rw [hcode] at hlater
  have hcurrent : ∀ g, (C.leave table f).Current g →
      C.Current g ∧ g ≠ f ∨ C.callParent f = some g ∧ C.detached f = false := by
    rintro g ⟨⟨hg, hgf⟩, habove⟩
    by_cases hcaller : C.callParent f = some g ∧ C.detached f = false
    · exact .inr hcaller
    · refine .inl ⟨⟨hg, fun k hk hparent => ?_⟩, hgf⟩
      by_cases hkf : k = f
      · subst hkf
        rw [← Bool.not_eq_false]
        exact fun hd => hcaller ⟨hparent, hd⟩
      · exact habove k ⟨hk, hkf⟩ hparent
  have hcaller : ∀ g, C.callParent f = some g → C.detached f = false →
      C.addr f = C.addr g ∧ C.position g = C.position f + 1 := by
    intro g hparent hd
    have hzero : f ≠ 0 := by
      rintro rfl
      have hlt := h.older 0 g hf.1 hparent
      exact absurd hlt (Nat.not_lt_zero g)
    obtain ⟨g', hparent', -, haddr, hposition⟩ := h.called f hf.1 hd hzero
    obtain rfl : g' = g := Option.some.inj (hparent'.symm.trans hparent)
    rw [hcode] at hposition
    exact ⟨haddr, hposition⟩
  have hbelow : ∀ g k, C.live g → C.callParent g = some k → k ≠ f := by
    rintro g k hg hk rfl
    exact htop g hg hk
  constructor
  case older => exact fun g k hg hk => h.older g k hg.1 hk
  case spawned =>
    rintro g ⟨hg, hgf⟩ hd
    obtain ⟨k, hk, hlivek, hmem, hroot⟩ := h.spawned g hg hd
    exact ⟨k, hk, ⟨hlivek, hbelow g k hg hk⟩, extendSync_pedigree.2.trans hmem, hroot⟩
  case called =>
    rintro g ⟨hg, hgf⟩ hd hzero
    obtain ⟨k, hk, hlivek, hsame, hposition⟩ := h.called g hg hd hzero
    exact ⟨k, hk, ⟨hlivek, hbelow g k hg hk⟩, hsame, hposition⟩
  case bottom => exact fun hzero => h.bottom hzero.1
  case rootParent => exact extendSync_pedigree.2.trans h.rootParent
  case distinct => exact fun g k hg hk => h.distinct g k hg.1 hk.1
  case single =>
    intro g k hg hk hsame
    rcases hcurrent g hg with ⟨hg', hgf⟩ | ⟨hfg, hd⟩
    · rcases hcurrent k hk with ⟨hk', hkf⟩ | ⟨hfk, hd⟩
      · exact h.single g k hg' hk' hsame
      · have haddr := (hcaller k hfk hd).1
        exact absurd (h.single g f hg' hf (hsame.trans haddr.symm)) hgf
    · rcases hcurrent k hk with ⟨hk', hkf⟩ | ⟨hfk, -⟩
      · have haddr := (hcaller g hfg hd).1
        exact absurd (h.single k f hk' hf (hsame.symm.trans haddr.symm)) hkf
      · exact Option.some.inj (hfg.symm.trans hfk)
  case reads =>
    intro g hg
    rcases hcurrent g hg with ⟨hg', hgf⟩ | ⟨hfg, hd⟩
    · obtain ⟨l, ls, hlabels, hl⟩ := h.reads g hg'
      exact ⟨l, ls, hlabels, hl.bump_other fun haddr => hgf (h.single g f hg' hf haddr)⟩
    · obtain ⟨haddr, hposition⟩ := hcaller g hfg hd
      obtain ⟨l, ls, hlabels, hl⟩ := h.reads f hf
      refine ⟨l.bump table, ls, ?_, ?_⟩
      · rw [leave_position, hposition, serialLabels_succ hlater, hlabels]
        rfl
      · rw [leave_addr, ← haddr]
        exact hl.bump
  case remaining => exact fun g hg => h.remaining g hg.1

end Rules

end Cactus

end Cheetah
