import Aura.Engine.Flush

/-!
# Ring selection

`select_ring` of `aura.c` and its four modes. Selection in thread-local mode claims a ring for the
calling thread on its first use (`selectRingThreadLocal`); adaptive selection may spill to another
ring (`adaptiveSpill`).
-/

namespace Aura

open Lib

/-- `SELECT_RING_REFRESH`. -/
abbrev SELECT_RING_REFRESH : ℤ := 32
/-- `ADAPTIVE_SPILL_THRESHOLD_NUM`. -/
abbrev ADAPTIVE_SPILL_THRESHOLD_NUM : ℤ := 3
/-- `ADAPTIVE_SPILL_THRESHOLD_DEN`. -/
abbrev ADAPTIVE_SPILL_THRESHOLD_DEN : ℤ := 4

/-! ## Addresses -/

/-- The address of ring `i`. -/
def Engine.ringAddr (e : Engine) (i : ℕ) : ℕ := e.ringsBase + i

/-- A thread-local ring pointer, read against the engine: the index of the ring it points to, if the
thread's engine pointer is this engine and the address is in the range of its rings. -/
def Engine.ringOf (e : Engine) (t : Tls) (p : Option ℕ) : Option ℕ :=
  match p, t.engine with
  | some a, some ref =>
      if ref.addr = e.addr ∧ e.ringsBase ≤ a ∧ a < e.ringsBase + e.ringCount then
        some (a - e.ringsBase)
      else none
  | _, _ => none

/-- `ring_is_sole_owner`. -/
def Engine.ringIsSoleOwner (e : Engine) (i : ℕ) : Bool :=
  (e.rings i).singleThread && (e.ringSelect = .threadLocal || e.ringCount = 1)

/-! ## The modes -/

/-- The atomic increment of `next_ring`, and the ring it selects. -/
def nextRing : AuraM ℕ :=
  Prog.update fun w =>
    (w.engine.nextRing.toNat % w.engine.ringCount,
      { w with engine := { w.engine with nextRing := w.engine.nextRing + 1 } })

/-- `select_ring_cpu_local`. -/
def selectRingCpuLocal (env : Env) : AuraM ℕ := do
  onTls fun t => { t with cpuRefreshCounter := t.cpuRefreshCounter - 1 }
  let clock ← Prog.read fun w => w.clock
  onTls fun t =>
    if t.cpuRefreshCounter ≤ 0 then
      { t with cpuRefreshCounter := SELECT_RING_REFRESH, cachedCpu := env.cpu clock }
    else t
  let w ← Prog.read id
  if 0 ≤ w.tls.cachedCpu ∧ w.tls.cachedCpu < w.engine.ringCount then pure w.tls.cachedCpu.toNat
  else do
    onTls fun t => { t with cachedCpu := (env.threadId % w.engine.ringCount : ℕ) }
    pure (env.threadId % w.engine.ringCount)

/-- The xorshift step of `xorshift_tls` on a seeded state. -/
def xorshift (s : UInt32) : UInt32 :=
  let s := s ^^^ (s <<< 13)
  let s := s ^^^ (s >>> 17)
  s ^^^ (s <<< 5)

/-- The lazy seed of `xorshift_tls`: never zero, the fixed point of `xorshift`. -/
def xorshiftSeed (env : Env) (s : UInt32) : UInt32 :=
  if s = 0 then
    let seed := UInt32.ofNat env.threadId ^^^ 0x5A5A5A5A
    if seed = 0 then 1 else seed
  else s

/-- `xorshift_tls`. -/
def xorshiftTls (env : Env) : AuraM UInt32 :=
  Prog.update fun w =>
    let s := xorshift (xorshiftSeed env w.tls.rngState)
    (s, { w with tls := { w.tls with rngState := s } })

/-- The two candidates of a spill from ring `localIdx` among `rc` rings, for two random values. -/
def spillCandidates (rc localIdx : ℕ) (x y : UInt32) : ℕ × ℕ :=
  let a₀ := x.toNat % (rc - 1)
  let a := if localIdx ≤ a₀ then a₀ + 1 else a₀
  if 2 ≤ rc - 1 then
    let b₀ := y.toNat % (rc - 2)
    let skip1 := if localIdx < a then localIdx else a
    let skip2 := if localIdx < a then a else localIdx
    let b₁ := if skip1 ≤ b₀ then b₀ + 1 else b₀
    let b := if skip2 ≤ b₁ then b₁ + 1 else b₁
    (a, b)
  else (a, a)

/-- The spilling half of adaptive selection: the less loaded of two random rings. The second random
value is drawn only when there are two rings to choose from. -/
def adaptiveSpill (env : Env) (localIdx : ℕ) : AuraM ℕ := do
  onEngine fun e => { e with adaptiveSpills := (e.adaptiveSpills + 1) % 2 ^ 64 }
  let x ← xorshiftTls env
  let rc ← Prog.read fun w => w.engine.ringCount
  let y ← (if 2 ≤ rc - 1 then xorshiftTls env else pure 0)
  let (a, b) := spillCandidates rc localIdx x y
  let pa ← readRing a fun r => r.pendingCount
  let pb ← readRing b fun r => r.pendingCount
  pure (if pa ≤ pb then a else b)

/-- Does adaptive selection leave a ring with `pending` operations and in-flight limit `limit` for
another one? -/
def spills (pending limit avg : ℤ) : Bool :=
  !(pending < Int.tdiv (limit * ADAPTIVE_SPILL_THRESHOLD_NUM) ADAPTIVE_SPILL_THRESHOLD_DEN) &&
    !(avg > 0 && pending ≤ avg * 2)

/-- The `AURA_SELECT_ADAPTIVE` case of `select_ring`. -/
def selectRingAdaptive (env : Env) : AuraM ℕ := do
  let i ← selectRingCpuLocal env
  let r ← readRing i id
  let avg ← Prog.read fun w => w.engine.avgRingPending
  if spills r.pendingCount r.adaptive.currentInFlightLimit avg then adaptiveSpill env i else pure i

/-- `ring_enable`. -/
def ringEnable (env : Env) (i : ℕ) : AuraM Unit := do
  let r ← readRing i id
  let clock ← Prog.read fun w => w.clock
  if !r.ringInitialized then setErrno EINVAL
  else if !r.needsEnable then pure ()
  else
    match env.enable clock with
    | none => onRing i fun r => { r with needsEnable := false }
    | some e => setErrno e

/-- The end of a claim: the thread remembers its ring and the engine. -/
def rememberRing (i : ℕ) : AuraM Unit :=
  Prog.modify fun w =>
    { w with tls := { w.tls with
        ownedRing := some (w.engine.ringAddr i)
        engine := some ⟨w.engine.addr, w.engine.ringSelect⟩ } }

/-- The first claim of a ring: enable it and set `single_thread`. -/
def claimFirst (env : Env) (i : ℕ) : AuraM Unit := do
  let r ← readRing i id
  Prog.when r.needsEnable (ringEnable env i)
  onRing i fun r => { r with singleThread := true }

/-- A later claim: clear `single_thread` and wait until nobody is inside a counted section. -/
def claimShared (i : ℕ) : AuraM Unit := do
  onRing i fun r => { r with singleThread := false }
  let r ← readRing i id
  if r.stUsers > 0 ∨ r.stCqUsers > 0 then Prog.block else pure ()

/-- `select_ring_thread_local`: the thread's ring, claimed on first use. -/
def selectRingThreadLocal (env : Env) : AuraM ℕ := do
  let owned ← Prog.read fun w => w.engine.ringOf w.tls w.tls.ownedRing
  match owned with
  | some i => pure i
  | none => do
      onTls fun t => { t with ownedRing := none }
      let i ← nextRing
      let prev ← readRing i fun r => r.ownerCount
      onRing i fun r => { r with ownerCount := r.ownerCount + 1 }
      (if prev = 0 then claimFirst env i else claimShared i)
      rememberRing i
      pure i

/-- `select_ring`. -/
def selectRing (env : Env) : AuraM ℕ := do
  let e ← Prog.read fun w => w.engine
  if e.ringCount = 1 ∧ (e.rings 0).needsEnable = false then pure 0
  else
    match e.ringSelect with
    | .threadLocal => selectRingThreadLocal env
    | .roundRobin => nextRing
    | .cpuLocal => selectRingCpuLocal env
    | .adaptive => selectRingAdaptive env

end Aura
