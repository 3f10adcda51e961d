import Mathlib.Data.List.Nodup

namespace VpTesting.BufferLedger

/-- The buffers created so far, numbered in their order, and those released. -/
structure Ledger where
  created : Nat := 0
  released : List Nat := []

namespace Ledger

def Live (l : Ledger) (b : Nat) : Prop := b < l.created ∧ b ∉ l.released

instance (l : Ledger) (b : Nat) : Decidable (l.Live b) := inferInstanceAs (Decidable (_ ∧ _))

/-- Only buffers that were created are released, and none of them twice. -/
structure Sound (l : Ledger) : Prop where
  created : ∀ b ∈ l.released, b < l.created
  once : l.released.Nodup

def malloc (l : Ledger) : Ledger := { l with created := l.created + 1 }

def free (b : Nat) (l : Ledger) : Ledger := { l with released := b :: l.released }

variable {l : Ledger} {b c : Nat}

theorem live_malloc : l.malloc.Live b ↔ l.Live b ∨ b = l.created ∧ b ∉ l.released := by
  have hlt : b < l.created + 1 ↔ b < l.created ∨ b = l.created := Nat.lt_succ_iff_lt_or_eq
  exact (and_congr_left fun _ => hlt).trans or_and_right

theorem live_free : (l.free c).Live b ↔ l.Live b ∧ b ≠ c := by
  have hmem : b ∉ c :: l.released ↔ b ∉ l.released ∧ b ≠ c := by
    rw [List.mem_cons, not_or, and_comm]
  exact (and_congr_right fun _ => hmem).trans and_assoc.symm

theorem sound_empty : ({} : Ledger).Sound :=
  ⟨fun _ hb => (List.not_mem_nil hb).elim, List.nodup_nil⟩

theorem Sound.malloc (hs : l.Sound) : l.malloc.Sound :=
  ⟨fun b hb => Nat.lt_succ_of_lt (hs.created b hb), hs.once⟩

theorem Sound.live_created (hs : l.Sound) : l.malloc.Live l.created :=
  ⟨Nat.lt_succ_self _, fun hb => Nat.lt_irrefl _ (hs.created _ hb)⟩

theorem Sound.free (hs : l.Sound) (hb : l.Live b) : (l.free b).Sound := by
  constructor
  · intro c hc
    obtain rfl | hc := List.mem_cons.mp hc
    · exact hb.1
    · exact hs.created c hc
  · exact List.nodup_cons.mpr ⟨hb.2, hs.once⟩

end Ledger

/-- A pointer to a buffer of the ledger, or null. -/
structure Holder where
  data : Option Nat := none
  ledger : Ledger := {}

namespace Holder

/-- Release the buffer, if there is one, and reset the pointer. -/
def release (h : Holder) : Holder :=
  match h.data with
  | none => h
  | some b => { data := none, ledger := h.ledger.free b }

/-- Reset the pointer, whatever it points to. -/
def reset (h : Holder) : Holder := { h with data := none }

def allocate (h : Holder) : Holder :=
  { data := some h.ledger.created, ledger := h.ledger.malloc }

/-- The pointer is null or points to a buffer that can be released. -/
structure Valid (h : Holder) : Prop where
  sound : h.ledger.Sound
  live : ∀ b, h.data = some b → h.ledger.Live b

/-- The pointer points to every buffer that is not released. -/
def Accounted (h : Holder) : Prop := ∀ b, h.ledger.Live b → h.data = some b

variable {h : Holder}

theorem valid_of_null (hs : h.ledger.Sound) (hd : h.data = none) : h.Valid := by
  refine ⟨hs, fun b hb => ?_⟩
  rw [hd] at hb
  cases hb

theorem valid_empty : ({} : Holder).Valid := valid_of_null Ledger.sound_empty rfl

theorem accounted_empty : ({} : Holder).Accounted := fun _ hb => (Nat.not_lt_zero _ hb.1).elim

@[simp] theorem data_release : h.release.data = none := by
  cases hd : h.data with
  | none => rw [release, hd, hd]
  | some b => rw [release, hd]

@[simp] theorem data_reset : h.reset.data = none := rfl

theorem release_of_null (hd : h.data = none) : h.release = h := by
  rw [release, hd]

/-- The buffers that are left are those that the pointer does not point to. -/
theorem live_release {b : Nat} : h.release.ledger.Live b ↔ h.ledger.Live b ∧ h.data ≠ some b := by
  cases hd : h.data with
  | none =>
    rw [release_of_null hd]
    exact (and_iff_left (Option.some_ne_none b).symm).symm
  | some c =>
    have hc : some c ≠ some b ↔ b ≠ c := (Option.some_inj.trans eq_comm).not
    rw [release, hd, Ledger.live_free, hc]

theorem Valid.release (hv : h.Valid) : h.release.Valid := by
  cases hd : h.data with
  | none => rwa [release_of_null hd]
  | some b =>
    rw [Holder.release, hd]
    exact valid_of_null (hv.sound.free (hv.live b hd)) rfl

theorem Valid.reset (hv : h.Valid) : h.reset.Valid := valid_of_null hv.sound rfl

theorem Valid.allocate (hv : h.Valid) : h.allocate.Valid := by
  refine ⟨hv.sound.malloc, fun b hb => ?_⟩
  obtain rfl := Option.some.inj hb
  exact hv.sound.live_created

theorem Accounted.release (ha : h.Accounted) : h.release.Accounted := by
  intro b hb
  obtain ⟨hl, hd⟩ := live_release.mp hb
  exact absurd (ha b hl) hd

theorem Accounted.allocate (ha : h.Accounted) (hd : h.data = none) : h.allocate.Accounted := by
  intro b hb
  obtain hl | ⟨rfl, -⟩ := Ledger.live_malloc.mp hb
  · rw [ha b hl] at hd
    cases hd
  · rfl

/-- Resetting the pointer loses its buffer. -/
theorem accounted_reset_iff (hv : h.Valid) (ha : h.Accounted) :
    h.reset.Accounted ↔ h.data = none := by
  constructor
  · intro hr
    rw [Option.eq_none_iff_forall_ne_some]
    intro b hd
    cases hr b (hv.live b hd)
  · intro hd b hb
    exact hd.symm.trans (ha b hb)

theorem not_accounted_iff : ¬h.Accounted ↔ ∃ b, h.ledger.Live b ∧ h.data ≠ some b := by
  simp only [Accounted, not_forall, exists_prop]

/-- What is lost stays lost. -/
theorem not_accounted_release (ha : ¬h.Accounted) : ¬h.release.Accounted := by
  obtain ⟨b, hb, hd⟩ := not_accounted_iff.mp ha
  refine not_accounted_iff.mpr ⟨b, live_release.mpr ⟨hb, hd⟩, ?_⟩
  rw [data_release]
  exact (Option.some_ne_none b).symm

theorem not_accounted_reset (ha : ¬h.Accounted) : ¬h.reset.Accounted := by
  obtain ⟨b, hb, -⟩ := not_accounted_iff.mp ha
  exact not_accounted_iff.mpr ⟨b, hb, (Option.some_ne_none b).symm⟩

theorem not_accounted_allocate (ha : ¬h.Accounted) : ¬h.allocate.Accounted := by
  obtain ⟨b, hb, -⟩ := not_accounted_iff.mp ha
  refine not_accounted_iff.mpr ⟨b, Ledger.live_malloc.mpr (Or.inl hb), fun hd => ?_⟩
  exact Nat.lt_irrefl b (Option.some.inj hd ▸ hb.1)

end Holder

/-- What every call keeps, a run of calls keeps. -/
theorem foldlM_keeps {σ ι : Type} {P : σ → Prop} {call : σ → ι → Option σ} {s t : σ}
    {calls : List ι} (hcall : ∀ s i t, P s → call s i = some t → P t) (hs : P s)
    (hr : calls.foldlM call s = some t) : P t := by
  induction calls generalizing s with
  | nil => exact Option.some.inj hr ▸ hs
  | cons i calls ih =>
    obtain ⟨u, hu, hr⟩ := Option.bind_eq_some_iff.mp hr
    exact ih (hcall s i u hs hu) hr

end VpTesting.BufferLedger
