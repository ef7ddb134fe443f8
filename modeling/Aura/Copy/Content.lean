import Aura.Copy.Progress

/-!
# What the copy pipeline writes

`TaskContent` relates a task to the bytes of its two files while no error was recorded: every byte
up to the read offset is in the destination, or on its way in a slot. A task is only finished with
no operation left, so all of its bytes are there by then.

* `CopyCtx.finishTask_content`: a finished task is copied.
* `CopyCtx.complete_content`: callbacks keep the bytes, where reads are full.
-/

namespace Aura

open Lib

theorem le_roundUpSz (x : ℕ) : x ≤ roundUpSz x := by
  unfold roundUpSz sectorSize
  omega

theorem roundUpSz_of_aligned {x : ℕ} (h : x % sectorSize = 0) : roundUpSz x = x := by
  unfold roundUpSz
  unfold sectorSize at *
  omega

namespace CopyCtx

variable {c d : CopyCtx} {op : CopyOp} {t i : ℕ} {a : CopyAnswer} {r : ℤ}
  {f : ℕ → ByteFile UInt8}

/-- The length on the wire of `k` bytes, a multiple of the sector size under `O_DIRECT`. -/
def padded (c : CopyCtx) (k : ℕ) : ℕ := if c.config.useDirect then roundUpSz k else k

theorem le_padded (k : ℕ) : k ≤ c.padded k := by
  unfold padded
  split_ifs
  · exact le_roundUpSz k
  · exact le_refl k

/-- Paths and sizes of the tasks are those of the source list. -/
structure SamePaths (c d : CopyCtx) : Prop where
  config : d.config = c.config
  totalFiles : d.totalFiles = c.totalFiles
  src : ∀ t, (d.tasks t).src = (c.tasks t).src
  dst : ∀ t, (d.tasks t).dst = (c.tasks t).dst
  fileSize : ∀ t, (d.tasks t).fileSize = (c.tasks t).fileSize

theorem SamePaths.refl : SamePaths c c := ⟨rfl, rfl, fun _ => rfl, fun _ => rfl, fun _ => rfl⟩

theorem SamePaths.trans {x : CopyCtx} (h : SamePaths c d) (h' : SamePaths d x) : SamePaths c x :=
  ⟨h'.config.trans h.config, h'.totalFiles.trans h.totalFiles,
    fun t => (h'.src t).trans (h.src t), fun t => (h'.dst t).trans (h.dst t),
    fun t => (h'.fileSize t).trans (h.fileSize t)⟩

/-! ## The bytes of a task -/

/-- The bytes of an operation in flight: the slot knows its place in the file, and for a write it
holds the bytes of the source there. Only the last chunk is padded. -/
structure OpContent (f : ℕ → ByteFile UInt8) (c : CopyCtx) (op : CopyOp) : Prop where
  offset : (c.slots op.slot).offset = op.offset
  bytes : (c.slots op.slot).bytes = op.len
  len : op.len = c.padded (c.slots op.slot).dataBytes
  inside : op.offset + (c.slots op.slot).dataBytes ≤ (c.tasks op.task).fileSize
  last : op.offset + (c.slots op.slot).dataBytes = (c.tasks op.task).fileSize ∨
    op.len = (c.slots op.slot).dataBytes
  buf : op.kind = .write → ∀ p < (c.slots op.slot).dataBytes,
    (c.slots op.slot).buf p = (f (c.tasks op.task).src).byte (op.offset + p)

/-- A byte of the source that has arrived. -/
def Arrived (f : ℕ → ByteFile UInt8) (c : CopyCtx) (t p : ℕ) : Prop :=
  p < (c.files (c.tasks t).dst).size ∧
    (c.files (c.tasks t).dst).byte p = (f (c.tasks t).src).byte p

/-- A byte that is read or written by an operation in flight. -/
def OnTheWay (c : CopyCtx) (t p : ℕ) : Prop :=
  ∃ op ∈ c.inFlight, op.task = t ∧ op.kind ≠ .fsync ∧ op.offset ≤ p ∧
    p < op.offset + (c.slots op.slot).dataBytes

/-- **The bytes of a task** and of the operations in flight for it. -/
structure TaskContent (f : ℕ → ByteFile UInt8) (c : CopyCtx) (t : ℕ) : Prop where
  source : c.files (c.tasks t).src = f (c.tasks t).src
  size : (f (c.tasks t).src).size = (c.tasks t).fileSize
  start : (c.tasks t).view.Fresh → (c.tasks t).readOffset = 0
  inside : (c.tasks t).readOffset ≤ (c.tasks t).fileSize
  reads : (c.tasks t).readsDone = true → (c.tasks t).readOffset = (c.tasks t).fileSize
  bound : (c.tasks t).srcFd.isOpen = true → c.config.useDirect = false →
    (c.files (c.tasks t).dst).size ≤ (c.tasks t).fileSize
  ops : ∀ op ∈ c.inFlight, op.task = t → op.kind ≠ .fsync → OpContent f c op
  cover : (c.tasks t).srcFd.isOpen = true → ∀ p < (c.tasks t).readOffset,
    Arrived f c t p ∨ OnTheWay c t p
  copied : ((c.tasks t).done = true ∨ ∃ op ∈ c.inFlight, op.task = t ∧ op.kind = .fsync) →
    c.files (c.tasks t).dst = f (c.tasks t).src

/-- The bytes of all tasks, while no error was recorded. -/
def Content (f : ℕ → ByteFile UInt8) (c : CopyCtx) : Prop :=
  c.error = 0 → (∀ op ∈ c.inFlight, op.task < c.totalFiles) ∧
    ∀ t < c.totalFiles, TaskContent f c t

/-- No destination is the source or the destination of another task, nor its own source. -/
def Apart (c : CopyCtx) : Prop :=
  ∀ t < c.totalFiles, ∀ t' < c.totalFiles,
    (c.tasks t).dst ≠ (c.tasks t').src ∧ (t ≠ t' → (c.tasks t).dst ≠ (c.tasks t').dst)

theorem SamePaths.apart (h : SamePaths c d) (hapart : c.Apart) : d.Apart := by
  intro t ht t' ht'
  rw [h.totalFiles] at ht ht'
  rw [h.dst t, h.src t', h.dst t']
  exact hapart t ht t' ht'

/-- What a step on the slot `i` for the task `t` leaves to the other tasks. -/
structure Leaves (t i : ℕ) (c d : CopyCtx) : Prop where
  beside : Beside t c d
  src : (d.tasks t).src = (c.tasks t).src
  dst : (d.tasks t).dst = (c.tasks t).dst
  fileSize : (d.tasks t).fileSize = (c.tasks t).fileSize
  files : ∀ inode, inode ≠ (c.tasks t).dst → d.files inode = c.files inode
  slots : ∀ j, j ≠ i → d.slots j = c.slots j
  ops : ∀ op, op.task ≠ t → (op ∈ d.inFlight ↔ op ∈ c.inFlight)

theorem Leaves.samePaths (h : Leaves t i c d) : SamePaths c d := by
  refine ⟨h.beside.config, h.beside.totalFiles, fun t' => ?_, fun t' => ?_, fun t' => ?_⟩
  all_goals by_cases ht' : t' = t
  · rw [ht', h.src]
  · rw [h.beside.tasks t' ht']
  · rw [ht', h.dst]
  · rw [h.beside.tasks t' ht']
  · rw [ht', h.fileSize]
  · rw [h.beside.tasks t' ht']

theorem Leaves.trans {x : CopyCtx} (h : Leaves t i c d) (h' : Leaves t i d x) : Leaves t i c x :=
  ⟨h.beside.trans h'.beside, h'.src.trans h.src, h'.dst.trans h.dst,
    h'.fileSize.trans h.fileSize,
    fun inode hne => (h'.files inode (by rw [h.dst]; exact hne)).trans (h.files inode hne),
    fun j hj => (h'.slots j hj).trans (h.slots j hj),
    fun op hop => (h'.ops op hop).trans (h.ops op hop)⟩

/-- **The other tasks keep their bytes.** -/
theorem Leaves.content (h : Leaves t i c d) (hapart : c.Apart) (ht : t < c.totalFiles)
    {t' : ℕ} (hne : t' ≠ t) (ht' : t' < c.totalFiles)
    (hslot : ∀ op ∈ c.inFlight, op.task = t' → op.slot ≠ i) (hc : TaskContent f c t') :
    TaskContent f d t' := by
  have htask := h.beside.tasks t' hne
  have hsrc : d.files (c.tasks t').src = c.files (c.tasks t').src :=
    h.files _ (hapart t ht t' ht').1.symm
  have hdst : d.files (c.tasks t').dst = c.files (c.tasks t').dst :=
    h.files _ ((hapart t' ht' t ht).2 hne)
  have hmem {op : CopyOp} (hop : op.task = t') : op ∈ d.inFlight ↔ op ∈ c.inFlight :=
    h.ops op (by rw [hop]; exact hne)
  have hslots {op : CopyOp} (hop : op ∈ c.inFlight) (htask' : op.task = t') :
      d.slots op.slot = c.slots op.slot := h.slots _ (hslot op hop htask')
  refine ⟨?_, ?_, ?_, ?_, ?_, ?_, fun op hop htask' hkind => ?_, ?_, ?_⟩
  · rw [htask, hsrc]
    exact hc.source
  · rw [htask]
    exact hc.size
  · rw [htask]
    exact hc.start
  · rw [htask]
    exact hc.inside
  · rw [htask]
    exact hc.reads
  · rw [htask, hdst, h.beside.config]
    exact hc.bound
  · have hop' := (hmem htask').mp hop
    have hcontent := hc.ops op hop' htask' hkind
    have hsl := hslots hop' htask'
    have htop : d.tasks op.task = c.tasks op.task := by rw [htask', htask]
    refine ⟨?_, ?_, ?_, ?_, ?_, ?_⟩
    · rw [hsl]
      exact hcontent.offset
    · rw [hsl]
      exact hcontent.bytes
    · rw [hsl, padded, h.beside.config]
      exact hcontent.len
    · rw [hsl, htop]
      exact hcontent.inside
    · rw [hsl, htop]
      exact hcontent.last
    · rw [hsl, htop]
      exact hcontent.buf
  · rw [htask]
    intro hopen p hp
    refine (hc.cover hopen p hp).imp (fun harr => ?_) fun hway => ?_
    · unfold Arrived
      rw [htask, hdst]
      exact harr
    · obtain ⟨op, hop, htask', hkind, hle, hlt⟩ := hway
      refine ⟨op, (hmem htask').mpr hop, htask', hkind, hle, ?_⟩
      rw [hslots hop htask']
      exact hlt
  · rw [htask, hdst]
    rintro (hdone | ⟨op, hop, htask', hkind⟩)
    · exact hc.copied (.inl hdone)
    · exact hc.copied (.inr ⟨op, (hmem htask').mp hop, htask', hkind⟩)

/-- So a step on one task has to look after that one only. -/
theorem Leaves.step (h : Leaves t i c d) (hapart : c.Apart) (ht : t < c.totalFiles)
    (hslot : ∀ op ∈ c.inFlight, op.task ≠ t → op.slot ≠ i) (hc : Content f c)
    (herr : d.error = 0 → c.error = 0) (htask : d.error = 0 → TaskContent f d t) :
    Content f d := by
  intro hzero
  obtain ⟨hrange, hall⟩ := hc (herr hzero)
  refine ⟨fun op hop => ?_, fun t' ht' => ?_⟩
  · rw [h.beside.totalFiles]
    by_cases heq : op.task = t
    · rw [heq]
      exact ht
    · exact hrange op ((h.ops op heq).mp hop)
  · rw [h.beside.totalFiles] at ht'
    by_cases heq : t' = t
    · rw [heq]
      exact htask hzero
    · exact h.content hapart ht heq ht'
        (fun op hop htask => hslot op hop (by rw [htask]; exact heq)) (hall t' ht')

/-! ## Finishing a task -/

/-- A task with all of its bytes read and nothing in flight has all of them in the destination. -/
theorem arrived_of_idle (h : TaskContent f c t) (hopen : (c.tasks t).srcFd.isOpen = true)
    (hreads : (c.tasks t).readsDone = true) (hnone : ∀ op ∈ c.inFlight, op.task ≠ t) {p : ℕ}
    (hp : p < (c.tasks t).fileSize) : Arrived f c t p := by
  refine (h.cover hopen p (by rw [h.reads hreads]; exact hp)).resolve_right ?_
  rintro ⟨op, hop, htask, -⟩
  exact hnone op hop htask

/-- **The destination is the source** once it has the exact size. -/
theorem trimTask_copied (h : TaskContent f c t) (hopened : (c.tasks t).view.Opened)
    (hreads : (c.tasks t).readsDone = true) (hnone : ∀ op ∈ c.inFlight, op.task ≠ t)
    (hzero : (trimTask a c t).error = 0) :
    (trimTask a c t).files (c.tasks t).dst = f (c.tasks t).src := by
  have hsrc : (c.tasks t).srcFd = _ := hopened.src
  have hdst : (c.tasks t).dstFd = _ := hopened.dst
  have hopen : (c.tasks t).srcFd.isOpen = true := by rw [hsrc]
  have harr {p : ℕ} (hp : p < (c.tasks t).fileSize) : Arrived f c t p :=
    arrived_of_idle h hopen hreads hnone hp
  unfold trimTask at hzero ⊢
  dsimp only at hzero ⊢
  split_ifs at hzero ⊢ with hdirect hans
  · unfold modifyFile
    dsimp only
    rw [Function.update_self]
    refine ByteFile.ext_of_lt h.size.symm fun p hp => ?_
    rw [ByteFile.size_truncate] at hp
    rw [ByteFile.byte_truncate hp]
    exact (harr hp).2
  · exact absurd hzero (setError_error_ne (by omega))
  · have hbound := h.bound hopen (by
      by_contra hno
      exact hdirect ⟨Bool.eq_true_of_not_eq_false hno, by rw [hdst]⟩)
    have hsize : (c.files (c.tasks t).dst).size = (c.tasks t).fileSize := by
      by_contra hne
      have hlt := (harr (lt_of_le_of_ne hbound hne)).1
      exact Nat.lt_irrefl _ hlt
    refine ByteFile.ext_of_lt (hsize.trans h.size.symm) fun p hp => ?_
    exact (harr (hsize ▸ hp)).2

theorem trimTask_files {inode : ℕ} (hne : inode ≠ (c.tasks t).dst) :
    (trimTask a c t).files inode = c.files inode := by
  unfold trimTask
  dsimp only
  split_ifs
  · exact Function.update_of_ne hne _ _
  · unfold setError
    split_ifs <;> rfl
  · rfl

/-- A task that is copied and has no read or write left. -/
theorem TaskContent.of_copied (hsource : c.files (c.tasks t).src = f (c.tasks t).src)
    (hsize : (f (c.tasks t).src).size = (c.tasks t).fileSize)
    (hread : (c.tasks t).readOffset = (c.tasks t).fileSize) (hnot : ¬ (c.tasks t).view.Fresh)
    (hops : ∀ op ∈ c.inFlight, op.task = t → op.kind = .fsync)
    (hcopied : c.files (c.tasks t).dst = f (c.tasks t).src) : TaskContent f c t where
  source := hsource
  size := hsize
  start hfresh := absurd hfresh hnot
  inside := le_of_eq hread
  reads _ := hread
  bound _ _ := by rw [hcopied, hsize]
  ops op hop htask hkind := absurd (hops op hop htask) hkind
  cover _ p hp := by
    refine .inl ⟨?_, ?_⟩
    · rwa [hcopied, hsize, ← hread]
    · rw [hcopied]
  copied _ := hcopied

theorem finishTask_leaves : Leaves t i c (finishTask a c t i) := by
  have hpaths : ((finishTask a c t i).tasks t).src = (c.tasks t).src ∧
      ((finishTask a c t i).tasks t).dst = (c.tasks t).dst ∧
      ((finishTask a c t i).tasks t).fileSize = (c.tasks t).fileSize := by
    rcases finishTask_tasks (a := a) (c := c) (t := t) (i := i) with htasks | htasks
    · rw [htasks]
      exact ⟨rfl, rfl, rfl⟩
    · rw [htasks, closeTask_self]
      exact ⟨rfl, rfl, rfl⟩
  refine ⟨finishTask_beside, hpaths.1, hpaths.2.1, hpaths.2.2, fun inode hne => ?_,
    fun j hj => finishTask_slots_of_ne hj, fun op hop => ?_⟩
  · have htrim := trimTask_files (a := a) (c := { c with completedFiles := c.completedFiles + 1 })
      (t := t) hne
    unfold finishTask syncTask
    split_ifs <;> exact htrim
  · obtain ⟨files, error, htrim⟩ :=
      trimTask_eq a { c with completedFiles := c.completedFiles + 1 } t
    unfold finishTask syncTask
    rw [htrim]
    split_ifs
    · refine Multiset.mem_cons.trans (or_iff_right ?_)
      rintro rfl
      exact hop rfl
    · exact Iff.rfl
    · exact Iff.rfl

/-- **A finished task is copied.** -/
theorem finishTask_content (h : TaskContent f c t) (hopened : (c.tasks t).view.Opened)
    (hreads : (c.tasks t).readsDone = true) (hnone : ∀ op ∈ c.inFlight, op.task ≠ t)
    (hne : (c.tasks t).src ≠ (c.tasks t).dst) (hzero : (finishTask a c t i).error = 0) :
    TaskContent f (finishTask a c t i) t := by
  set x : CopyCtx := { c with completedFiles := c.completedFiles + 1 }
  have hzero' : (trimTask a x t).error = 0 := by
    unfold finishTask syncTask at hzero
    split_ifs at hzero <;> exact hzero
  have hx : TaskContent f x t := ⟨h.source, h.size, h.start, h.inside, h.reads, h.bound,
    fun op hop htask hkind => absurd htask (hnone op hop), h.cover, h.copied⟩
  have hcopied : (trimTask a x t).files (c.tasks t).dst = f (c.tasks t).src :=
    trimTask_copied hx hopened hreads hnone hzero'
  have hsource : (trimTask a x t).files (c.tasks t).src = f (c.tasks t).src :=
    (trimTask_files (c := x) hne).trans h.source
  obtain ⟨files, error, htrim⟩ := trimTask_eq a x t
  rw [htrim] at hcopied hsource
  unfold finishTask syncTask
  rw [htrim]
  have hclosed (y : CopyCtx) (hy : y.tasks = c.tasks) (hfiles : y.files = files)
      (hin : y.inFlight = c.inFlight) : TaskContent f (y.closeTask t) t := by
    refine .of_copied ?_ ?_ ?_ (fun hfresh => ?_) (fun op hop htask => ?_) ?_
    · rw [closeTask_self, hy]
      exact (congrFun hfiles _).trans hsource
    · rw [closeTask_self, hy]
      exact h.size
    · rw [closeTask_self, hy]
      exact h.reads hreads
    · rw [closeTask_self] at hfresh
      cases hfresh.done
    · exact absurd htask (hnone op (hin ▸ hop))
    · rw [closeTask_self, hy]
      exact (congrFun hfiles _).trans hcopied
  split_ifs
  · refine .of_copied hsource h.size (h.reads hreads) (fun hfresh => ?_) (fun op hop htask => ?_)
      hcopied
    · have hsrc : (c.tasks t).srcFd = _ := hopened.src
      have hsrc' : (c.tasks t).srcFd = _ := hfresh.src
      rw [hsrc] at hsrc'
      cases hsrc'
    · rcases Multiset.mem_cons.mp hop with rfl | hop
      · rfl
      · exact absurd htask (hnone op hop)
  · exact hclosed _ rfl rfl rfl
  · exact hclosed _ rfl rfl rfl

/-! ## Opening and reading -/

theorem openTask_files {inode : ℕ} (hne : inode ≠ (c.tasks t).dst) :
    (openTask a c t).2.files inode = c.files inode := by
  unfold openTask
  dsimp only
  split_ifs
  · exact (Function.update_of_ne hne _ _).trans (Function.update_of_ne hne _ _)
  · exact Function.update_of_ne hne _ _
  · rfl
  · rfl

/-- A destination is empty after the open, or filled up with zeros to its size. -/
theorem openTask_dst (hopens : a.opens t = true) :
    ((openTask a c t).2.files (c.tasks t).dst).size ≤ (c.tasks t).fileSize := by
  obtain ⟨hsrc, hdst⟩ := Bool.and_eq_true_iff.mp hopens
  unfold openTask
  dsimp only
  rw [if_pos hsrc, if_pos hdst]
  split_ifs
  · unfold modifyFile
    dsimp only
    rw [Function.update_self, Function.update_self, ByteFile.size_extend]
    exact max_le (Nat.zero_le _) (le_refl _)
  · unfold modifyFile
    dsimp only
    rw [Function.update_self]
    exact Nat.zero_le _

theorem openTask_leaves : Leaves t i c (openTask a c t).2 := by
  have hpaths : ((openTask a c t).2.tasks t).src = (c.tasks t).src ∧
      ((openTask a c t).2.tasks t).dst = (c.tasks t).dst ∧
      ((openTask a c t).2.tasks t).fileSize = (c.tasks t).fileSize := by
    cases hopens : a.opens t with
    | true =>
        rw [openTask_task_of_opens hopens]
        exact ⟨rfl, rfl, rfl⟩
    | false =>
        obtain ⟨fd, -, htask⟩ := openTask_task_of_not_opens (c := c) hopens
        rw [htask]
        exact ⟨rfl, rfl, rfl⟩
  exact ⟨openTask_beside, hpaths.1, hpaths.2.1, hpaths.2.2, fun _ hne => openTask_files hne,
    fun j _ => congrFun openTask_slots j, fun op _ => by rw [openTask_inFlight]⟩

theorem openTask_content (h : TaskContent f c t) (hfresh : (c.tasks t).view.Fresh)
    (hnone : ∀ op ∈ c.inFlight, op.task ≠ t) (hopens : a.opens t = true)
    (hne : (c.tasks t).src ≠ (c.tasks t).dst) : TaskContent f (openTask a c t).2 t := by
  have htask := openTask_task_of_opens (c := c) hopens
  have hstart : (c.tasks t).readOffset = 0 := h.start hfresh
  have hnot {op : CopyOp} (hop : op ∈ (openTask a c t).2.inFlight) : op.task ≠ t := by
    rw [openTask_inFlight] at hop
    exact hnone op hop
  refine ⟨?_, ?_, fun _ => ?_, ?_, fun hreads => ?_, fun _ _ => ?_,
    fun op hop ht => absurd ht (hnot hop), fun _ p hp => ?_, ?_⟩
  · rw [htask]
    exact (openTask_files hne).trans h.source
  · rw [htask]
    exact h.size
  · rw [htask]
    exact hstart
  · rw [htask]
    exact h.inside
  · rw [htask] at hreads
    have hreads' : (c.tasks t).readsDone = false := hfresh.reads
    rw [show (c.tasks t).readsDone = true from hreads] at hreads'
    cases hreads'
  · rw [htask]
    exact openTask_dst hopens
  · rw [htask] at hp
    exact absurd hp (by
      change ¬ p < (c.tasks t).readOffset
      omega)
  · rw [htask]
    rintro (hdone | ⟨op, hop, ht, -⟩)
    · have hdone' : (c.tasks t).done = false := hfresh.done
      rw [show (c.tasks t).done = true from hdone] at hdone'
      cases hdone'
    · exact absurd ht (hnot hop)

/-- A task without bytes is copied as soon as it is open. -/
theorem finishEmpty_content (h : TaskContent f c t) (hopened : (c.tasks t).view.Opened)
    (hempty : (c.tasks t).fileSize = 0) (hnone : ∀ op ∈ c.inFlight, op.task ≠ t)
    (hne : (c.tasks t).src ≠ (c.tasks t).dst) (hzero : (finishEmpty a c t i).error = 0) :
    TaskContent f (finishEmpty a c t i) t := by
  set x := c.modifyTask t fun task => { task with readsDone := true } with hx
  have htask : x.tasks t = { c.tasks t with readsDone := true } := modifyTask_self _ _ _
  have hread : (c.tasks t).readOffset = (c.tasks t).fileSize := by
    have hle := h.inside
    omega
  have hcontent : TaskContent f x t := by
    refine ⟨?_, ?_, fun hfresh => ?_, ?_, fun _ => ?_, ?_, fun op hop ht =>
      absurd ht (hnone op hop),
      fun _ p hp => ?_, ?_⟩
    · rw [htask]
      exact h.source
    · rw [htask]
      exact h.size
    · rw [htask] at hfresh
      cases hfresh.reads
    · rw [htask]
      exact h.inside
    · rw [htask]
      exact hread
    · rw [htask]
      exact h.bound
    · rw [htask] at hp
      have hp' : p < (c.tasks t).readOffset := hp
      omega
    · rw [htask]
      exact h.copied
  have hopened' : (x.tasks t).view.Opened := by
    rw [htask]
    exact ⟨hopened.done, hopened.src, hopened.dst⟩
  have hfinish := finishTask_content (a := a) (i := i) hcontent hopened' (by rw [htask]) hnone
    (by rw [htask]; exact hne) hzero
  exact ⟨hfinish.source, hfinish.size, hfinish.start, hfinish.inside, hfinish.reads, hfinish.bound,
    fun op hop ht hkind =>
      have hop' := hfinish.ops op hop ht hkind
      ⟨hop'.offset, hop'.bytes, hop'.len, hop'.inside, hop'.last, hop'.buf⟩,
    hfinish.cover, hfinish.copied⟩

theorem submitRead_slot (hans : a.read = 0) :
    (submitRead a c t i).slots i =
      { c.slots i with
        offset := (c.tasks t).readOffset
        bytes := c.ioLen t
        dataBytes := c.chunk t
        state := .reading
        task := some t } := by
  unfold submitRead
  rw [if_pos hans]
  exact Function.update_self _ _ _

theorem submitRead_files : (submitRead a c t i).files = c.files := by
  unfold submitRead setError
  split_ifs <;> rfl

theorem submitRead_leaves : Leaves t i c (submitRead a c t i) := by
  have hpaths : ((submitRead a c t i).tasks t).src = (c.tasks t).src ∧
      ((submitRead a c t i).tasks t).dst = (c.tasks t).dst ∧
      ((submitRead a c t i).tasks t).fileSize = (c.tasks t).fileSize := by
    by_cases hans : a.read = 0
    · rw [submitRead_self c t i hans]
      exact ⟨rfl, rfl, rfl⟩
    · rw [submitRead_self_of_ne c t i hans]
      exact ⟨rfl, rfl, rfl⟩
  refine ⟨submitRead_beside, hpaths.1, hpaths.2.1, hpaths.2.2,
    fun inode _ => congrFun submitRead_files inode, fun j hj => submitRead_slots_of_ne hj,
    fun op hop => ?_⟩
  by_cases hans : a.read = 0
  · rw [mem_submitRead hans]
    refine Multiset.mem_cons.trans (or_iff_right ?_)
    rintro rfl
    exact hop rfl
  · unfold submitRead setError
    rw [if_neg hans]
    split_ifs <;> exact Iff.rfl

/-- The chunk of a read is the last one, or it needs no padding. -/
theorem chunk_last : (c.tasks t).readOffset + c.chunk t = (c.tasks t).fileSize ∨
    (c.tasks t).fileSize < (c.tasks t).readOffset ∨ c.ioLen t = c.chunk t := by
  by_cases hlast : (c.tasks t).fileSize < (c.tasks t).readOffset + c.config.chunkSize
  · have hchunk : c.chunk t = (c.tasks t).fileSize - (c.tasks t).readOffset := if_pos hlast
    rw [hchunk]
    omega
  · have hchunk : c.chunk t = c.config.chunkSize := if_neg hlast
    refine .inr (.inr ?_)
    unfold ioLen
    split_ifs with hdirect
    · rw [hchunk]
      exact roundUpSz_of_aligned (c.config.direct_aligned hdirect)
    · rfl

theorem submitRead_content (h : TaskContent f c t) (hopened : (c.tasks t).view.Opened)
    (hunread : (c.tasks t).readsDone = false)
    (hsync : ∀ op ∈ c.inFlight, op.task = t → op.kind ≠ .fsync)
    (hslot : ∀ op ∈ c.inFlight, op.slot ≠ i) (hans : a.read = 0) :
    TaskContent f (submitRead a c t i) t := by
  have htask := submitRead_self c t i hans
  have hnew := submitRead_slot (c := c) (t := t) (i := i) hans
  have hfiles : (submitRead a c t i).files = c.files := submitRead_files
  have hsrc : (c.tasks t).srcFd = _ := hopened.src
  have hle := chunk_le (c := c) (t := t)
  have hinside := h.inside
  have hslots {op : CopyOp} (hop : op ∈ c.inFlight) :
      (submitRead a c t i).slots op.slot = c.slots op.slot :=
    submitRead_slots_of_ne (hslot op hop)
  refine ⟨?_, ?_, fun hfresh => ?_, ?_, fun hreads => ?_, ?_, fun op hop ht hkind => ?_,
    fun hopen p hp => ?_, ?_⟩
  · rw [htask, hfiles]
    exact h.source
  · rw [htask]
    exact h.size
  · rw [htask] at hfresh
    have hsrc' : (c.tasks t).srcFd = _ := hfresh.src
    rw [hsrc] at hsrc'
    cases hsrc'
  · rw [htask]
    change (c.tasks t).readOffset + c.chunk t ≤ (c.tasks t).fileSize
    omega
  · rw [htask] at hreads ⊢
    have hlast : c.lastChunk t = true := by
      rw [hunread] at hreads
      exact hreads
    have hend := of_decide_eq_true hlast
    change (c.tasks t).readOffset + c.chunk t = (c.tasks t).fileSize
    omega
  · rw [htask, hfiles, submitRead_beside.config]
    exact h.bound
  · rw [mem_submitRead hans] at hop
    rcases Multiset.mem_cons.mp hop with rfl | hop
    · refine ⟨?_, ?_, ?_, ?_, ?_, fun hk => (by cases hk)⟩
      · rw [hnew]
      · rw [hnew]
      · rw [hnew, padded, submitRead_beside.config]
        rfl
      · rw [hnew, htask]
        change (c.tasks t).readOffset + c.chunk t ≤ (c.tasks t).fileSize
        omega
      · rw [hnew, htask]
        rcases chunk_last (c := c) (t := t) with hend | hlt | heq
        · exact .inl hend
        · omega
        · exact .inr heq
    · obtain ⟨h₁, h₂, h₃, h₄, h₅, h₆⟩ := h.ops op hop ht hkind
      have htop : (submitRead a c t i).tasks op.task = (submitRead a c t i).tasks t := by rw [ht]
      rw [ht] at h₄ h₅ h₆
      refine ⟨?_, ?_, ?_, ?_, ?_, ?_⟩
      · rw [hslots hop]
        exact h₁
      · rw [hslots hop]
        exact h₂
      · rw [hslots hop, padded, submitRead_beside.config]
        exact h₃
      · rw [hslots hop, htop, htask]
        exact h₄
      · rw [hslots hop, htop, htask]
        exact h₅
      · rw [hslots hop, htop, htask]
        exact h₆
  · rw [htask] at hp
    by_cases hold : p < (c.tasks t).readOffset
    · refine (h.cover (by rw [hsrc]) p hold).imp (fun harr => ?_) fun hway => ?_
      · unfold Arrived
        rw [htask, hfiles]
        exact harr
      · obtain ⟨op, hop, ht, hkind, hle, hlt⟩ := hway
        refine ⟨op, ?_, ht, hkind, hle, ?_⟩
        · rw [mem_submitRead hans]
          exact Multiset.mem_cons_of_mem hop
        · rw [hslots hop]
          exact hlt
    · refine .inr ⟨_, (mem_submitRead hans).symm ▸ Multiset.mem_cons_self _ _, rfl,
        fun heq => (by cases heq), not_lt.mp hold, ?_⟩
      rw [hnew]
      exact hp
  · rw [htask]
    rintro (hdone | ⟨op, hop, ht, hkind⟩)
    · have hdone' : (c.tasks t).done = false := hopened.done
      rw [show (c.tasks t).done = true from hdone] at hdone'
      cases hdone'
    · rw [mem_submitRead hans] at hop
      rcases Multiset.mem_cons.mp hop with rfl | hop
      · cases hkind
      · exact absurd hkind (hsync op hop ht)

/-! ## Callbacks -/

/-- A read or write of an open task shows that the task is not copied yet. -/
theorem not_copied (hgood : c.view.Good) (hop : op ∈ c.inFlight) (hkind : op.kind ≠ .fsync) :
    (c.tasks op.task).done = false ∧
      ∀ op' ∈ c.inFlight, op'.task = op.task → op'.kind ≠ .fsync := by
  refine ⟨(hgood.opened op hop).done, fun op' hop' ht hsync => hkind ?_⟩
  rw [(hgood.syncs op' hop' hsync).2 op hop ht.symm]
  exact hsync

/-- An operation other than `op` is on another slot. -/
theorem slot_ne_of_ne (hgood : c.view.Good) (hop : op ∈ c.inFlight) {op' : CopyOp}
    (hop' : op' ∈ c.inFlight) (hne : op' ≠ op) : op'.slot ≠ op.slot :=
  hgood.slot_ne_of_erase hop ((Multiset.mem_erase_of_ne hne).mpr hop')

/-- An operation that ends with all of its bytes in the destination. -/
theorem TaskContent.settle (h : TaskContent f c op.task) (hgood : c.view.Good)
    (hop : op ∈ c.inFlight) (hkind : op.kind ≠ .fsync)
    (hconfig : d.config = c.config) {k : ℤ} {m : ℕ}
    (htask : d.tasks op.task = { c.tasks op.task with activeOps := k, bytesWritten := m })
    (hin : d.inFlight = c.inFlight.erase op) (hslots : ∀ j, j ≠ op.slot → d.slots j = c.slots j)
    (hsrc : d.files (c.tasks op.task).src = c.files (c.tasks op.task).src)
    (hbound : c.config.useDirect = false →
      (d.files (c.tasks op.task).dst).size ≤ (c.tasks op.task).fileSize)
    (hold : ∀ p < (c.tasks op.task).fileSize, Arrived f c op.task p → Arrived f d op.task p)
    (hnew : ∀ p, op.offset ≤ p → p < op.offset + (c.slots op.slot).dataBytes →
      Arrived f d op.task p) : TaskContent f d op.task := by
  obtain ⟨hdone, hsync⟩ := not_copied hgood hop hkind
  have hmem {op' : CopyOp} (hop' : op' ∈ d.inFlight) :
      op' ∈ c.inFlight ∧ d.slots op'.slot = c.slots op'.slot := by
    rw [hin] at hop'
    exact ⟨Multiset.mem_of_mem_erase hop', hslots _ (hgood.slot_ne_of_erase hop hop')⟩
  have hinside := h.inside
  refine ⟨?_, ?_, ?_, ?_, ?_, ?_, fun op' hop' ht hk => ?_, fun hopen p hp => ?_, ?_⟩
  · rw [htask]
    exact hsrc.trans h.source
  · rw [htask]
    exact h.size
  · rw [htask]
    exact fun hfresh => h.start ⟨hfresh.done, hfresh.reads, hfresh.src, hfresh.dst⟩
  · rw [htask]
    exact h.inside
  · rw [htask]
    exact h.reads
  · rw [htask, hconfig]
    exact fun _ => hbound
  · obtain ⟨hop'', hslot⟩ := hmem hop'
    obtain ⟨h₁, h₂, h₃, h₄, h₅, h₆⟩ := h.ops op' hop'' ht hk
    have htop : d.tasks op'.task = d.tasks op.task := by rw [ht]
    rw [ht] at h₄ h₅ h₆
    refine ⟨?_, ?_, ?_, ?_, ?_, ?_⟩
    · rw [hslot]
      exact h₁
    · rw [hslot]
      exact h₂
    · rw [hslot, padded, hconfig]
      exact h₃
    · rw [hslot, htop, htask]
      exact h₄
    · rw [hslot, htop, htask]
      exact h₅
    · rw [hslot, htop, htask]
      exact h₆
  · rw [htask] at hopen hp
    have hp' : p < (c.tasks op.task).readOffset := hp
    rcases h.cover hopen p hp' with harr | ⟨op', hop', ht, hk, hle, hlt⟩
    · exact .inl (hold p (by omega) harr)
    · by_cases heq : op' = op
      · rw [heq] at hle hlt
        exact .inl (hnew p hle hlt)
      · have hin' : op' ∈ d.inFlight := by
          rw [hin]
          exact (Multiset.mem_erase_of_ne heq).mpr hop'
        refine .inr ⟨op', hin', ht, hk, hle, ?_⟩
        rw [(hmem hin').2]
        exact hlt
  · rw [htask]
    rintro (hdone' | ⟨op', hop', ht, hk⟩)
    · rw [show (c.tasks op.task).done = true from hdone'] at hdone
      cases hdone
    · exact absurd hk (hsync op' (hmem hop').1 ht)

/-- **The condition on a read**: it fails, or it is as long as the file allows, unless an error was
recorded before. -/
def FullRead (c : CopyCtx) (op : CopyOp) (r : ℤ) : Prop :=
  op.kind = .read → 0 ≤ r → c.error = 0 →
    r = min op.len ((c.files (c.tasks op.task).src).size - op.offset)

/-- A full read has the bytes of its chunk. -/
theorem FullRead.eq (h : c.FullRead op r) (hc : TaskContent f c op.task) (hop : op ∈ c.inFlight)
    (hkind : op.kind = .read) (hr : 0 ≤ r) (hzero : c.error = 0) :
    r = (c.slots op.slot).dataBytes := by
  have hcontent := hc.ops op hop rfl (by rw [hkind]; exact fun heq => (by cases heq))
  have hlen : (c.slots op.slot).dataBytes ≤ op.len := hcontent.len ▸ le_padded _
  have hinside := hcontent.inside
  rw [h hkind hr hzero, hc.source, hc.size]
  rcases hcontent.last with hlast | hlast
  · rw [min_eq_right (by omega)]
    omega
  · rw [min_eq_left (by omega), hlast]

/-- What the callback of an operation finds: the kernel has read into its slot or written from it.
-/
structure Done (op : CopyOp) (r : ℤ) (c x : CopyCtx) : Prop where
  config : x.config = c.config
  totalFiles : x.totalFiles = c.totalFiles
  tasks : x.tasks = c.tasks
  error : x.error = c.error
  inFlight : x.inFlight = c.inFlight.erase op
  slots : ∀ j, j ≠ op.slot → x.slots j = c.slots j
  files : ∀ inode, inode ≠ (c.tasks op.task).dst → x.files inode = c.files inode

theorem transfer_done : Done op r c (transfer op r { c with inFlight := c.inFlight.erase op }) := by
  unfold transfer
  cases op.kind with
  | read =>
      exact ⟨rfl, rfl, rfl, rfl, rfl, fun j hj => Function.update_of_ne hj _ _, fun _ _ => rfl⟩
  | write =>
      exact ⟨rfl, rfl, rfl, rfl, rfl, fun _ _ => rfl, fun _ hne => Function.update_of_ne hne _ _⟩
  | fsync => exact ⟨rfl, rfl, rfl, rfl, rfl, fun _ _ => rfl, fun _ _ => rfl⟩

theorem Done.beside {x : CopyCtx} (h : Done op r c x) : Beside op.task c x :=
  ⟨h.config, h.totalFiles, fun t _ => congrFun h.tasks t⟩

/-- After a full read: nothing was left to read, or the bytes are on their way to the destination.
-/
theorem onReadComplete_content (hc : TaskContent f c op.task) (hgood : c.view.Good)
    (hop : op ∈ c.inFlight) (hkind : op.kind = .read) (hfull : c.FullRead op r)
    (hbefore : c.error = 0)
    (hzero : (onReadComplete a op.slot r
      (transfer op r { c with inFlight := c.inFlight.erase op })).error = 0) :
    TaskContent f (onReadComplete a op.slot r
      (transfer op r { c with inFlight := c.inFlight.erase op })) op.task := by
  have hne : op.kind ≠ .fsync := by
    rw [hkind]
    exact fun heq => (by cases heq)
  obtain ⟨hdone, hsync⟩ := not_copied hgood hop hne
  have hover := Over.transfer (r := r) hgood hop
  set x := transfer op r { c with inFlight := c.inFlight.erase op } with hx
  have hd : Done op r c x := transfer_done
  have hfiles : x.files = c.files := by
    rw [hx]
    unfold transfer
    rw [hkind]
    rfl
  have hcontent := hc.ops op hop rfl hne
  have hslot : x.slots op.slot = { c.slots op.slot with
      buf := fun p => if p < r.toNat then
        (c.files (c.tasks op.task).src).byte (op.offset + p) else (c.slots op.slot).buf p } := by
    rw [hx]
    unfold transfer
    rw [hkind]
    exact Function.update_self _ _ _
  unfold onReadComplete at hzero ⊢
  rw [hover.task] at hzero ⊢
  dsimp only at hzero ⊢
  by_cases hres : r ≤ 0
  · rw [if_pos hres] at hzero ⊢
    by_cases hneg : r < 0
    · rw [if_pos hneg] at hzero
      exact absurd hzero (setError_error_ne (ne_of_lt hneg))
    rw [if_neg hneg]
    have hnone := hfull.eq hc hop hkind (not_lt.mp hneg) hbefore
    refine hc.settle hgood hop hne hd.config (k := (c.tasks op.task).activeOps - 1)
      (m := (c.tasks op.task).bytesWritten) ?_ hd.inFlight (fun j hj => ?_) (congrFun hfiles _)
      (fun hdirect => ?_) (fun p hp harr => ?_) fun p hle hlt => by omega
    · rw [release_self, hd.tasks]
    · exact (Function.update_of_ne hj _ _).trans (hd.slots j hj)
    · change (x.files _).size ≤ _
      rw [hfiles]
      exact hc.bound (by rw [show (c.tasks op.task).srcFd = _ from (hgood.opened op hop).src])
        hdirect
    · unfold Arrived
      rw [release_self, hd.tasks]
      change p < (x.files _).size ∧ (x.files _).byte p = _
      rw [hfiles]
      exact harr
  rw [if_neg hres] at hzero ⊢
  have hbytes := hfull.eq hc hop hkind (by omega) hbefore
  have hnat : r.toNat = (c.slots op.slot).dataBytes := by omega
  by_cases hans : a.write = 0
  · rw [if_pos hans]
    have hlen : (if x.config.useDirect = true then roundUpSz r.toNat else r.toNat) = op.len := by
      rw [hcontent.len, hnat, hd.config]
      rfl
    rw [hlen]
    set x' := x.modifySlot op.slot fun slot =>
      { slot with
        buf := fun p => if r.toNat ≤ p ∧ p < op.len then 0 else slot.buf p
        dataBytes := r.toNat
        bytes := op.len
        state := .writing } with hx'
    have hslot' : x'.slots op.slot =
        { c.slots op.slot with
          buf := fun p => if r.toNat ≤ p ∧ p < op.len then 0 else if p < r.toNat then
            (c.files (c.tasks op.task).src).byte (op.offset + p) else (c.slots op.slot).buf p
          dataBytes := r.toNat
          bytes := op.len
          state := .writing } := by
      rw [hx']
      refine (Function.update_self _ _ _).trans ?_
      rw [hslot]
    have hrest {op' : CopyOp} (hop' : op' ∈ c.inFlight.erase op) :
        op' ∈ c.inFlight ∧ x'.slots op'.slot = c.slots op'.slot := by
      have hne' := hgood.slot_ne_of_erase hop hop'
      refine ⟨Multiset.mem_of_mem_erase hop', ?_⟩
      exact (Function.update_of_ne hne' _ _).trans (hd.slots _ hne')
    have hoffset : (x'.slots op.slot).offset = op.offset := by
      rw [hslot']
      exact hcontent.offset
    rw [hoffset]
    set y := x'.enqueue
      { kind := .write, slot := op.slot, task := op.task, offset := op.offset, len := op.len }
    have hmem {op' : CopyOp} (hop' : op' ∈ y.inFlight) :
        op' = { kind := .write, slot := op.slot, task := op.task, offset := op.offset
                len := op.len } ∨ op' ∈ c.inFlight.erase op := by
      refine (Multiset.mem_cons.mp hop').imp id fun hin => ?_
      rwa [← hd.inFlight]
    have htasks : y.tasks = c.tasks := hd.tasks
    have hfiles' : y.files = c.files := hfiles
    have hconfig : y.config = c.config := hd.config
    refine ⟨?_, ?_, ?_, ?_, ?_, ?_, fun op' hop' ht hk => ?_, fun hopen p hp => ?_, ?_⟩
    · rw [htasks, hfiles']
      exact hc.source
    · rw [htasks]
      exact hc.size
    · rw [htasks]
      exact hc.start
    · rw [htasks]
      exact hc.inside
    · rw [htasks]
      exact hc.reads
    · rw [htasks, hfiles', hconfig]
      exact hc.bound
    · rcases hmem hop' with rfl | hin
      · refine ⟨hoffset, ?_, ?_, ?_, ?_, fun _ p hp => ?_⟩
        · exact congrArg BufSlot.bytes hslot'
        · change op.len = y.padded (x'.slots op.slot).dataBytes
          rw [hslot', padded, hconfig]
          exact hnat ▸ hcontent.len
        · change op.offset + (x'.slots op.slot).dataBytes ≤ (y.tasks op.task).fileSize
          rw [hslot', htasks]
          exact hnat ▸ hcontent.inside
        · change op.offset + (x'.slots op.slot).dataBytes = (y.tasks op.task).fileSize ∨
            op.len = (x'.slots op.slot).dataBytes
          rw [hslot', htasks]
          exact hnat ▸ hcontent.last
        · change p < (x'.slots op.slot).dataBytes at hp
          change (x'.slots op.slot).buf p = (f (y.tasks op.task).src).byte (op.offset + p)
          rw [hslot'] at hp ⊢
          dsimp only at hp ⊢
          rw [if_neg (by omega), if_pos hp, hc.source, htasks]
      · obtain ⟨hop'', hsl⟩ := hrest hin
        obtain ⟨h₁, h₂, h₃, h₄, h₅, h₆⟩ := hc.ops op' hop'' ht hk
        have hsl' : y.slots op'.slot = c.slots op'.slot := hsl
        refine ⟨?_, ?_, ?_, ?_, ?_, ?_⟩
        · rw [hsl']
          exact h₁
        · rw [hsl']
          exact h₂
        · rw [hsl', padded, hconfig]
          exact h₃
        · rw [hsl', htasks]
          exact h₄
        · rw [hsl', htasks]
          exact h₅
        · rw [hsl', htasks]
          exact h₆
    · rw [htasks] at hopen hp
      refine (hc.cover hopen p hp).imp (fun harr => ?_) fun hway => ?_
      · unfold Arrived
        rw [htasks, hfiles']
        exact harr
      · obtain ⟨op', hop', ht, hk, hle, hlt⟩ := hway
        by_cases heq : op' = op
        · rw [heq] at hle hlt
          refine ⟨_, Multiset.mem_cons_self _ _, rfl, fun heq => (by cases heq), hle, ?_⟩
          change p < op.offset + (x'.slots op.slot).dataBytes
          rw [hslot']
          exact hnat ▸ hlt
        · have hin := (Multiset.mem_erase_of_ne heq).mpr hop'
          refine ⟨op', Multiset.mem_cons_of_mem (hd.inFlight ▸ hin), ht, hk, hle, ?_⟩
          change p < op'.offset + (x'.slots op'.slot).dataBytes
          rw [(hrest hin).2]
          exact hlt
    · rw [htasks]
      rintro (hdone' | ⟨op', hop', ht, hk⟩)
      · rw [hdone] at hdone'
        cases hdone'
      · rcases hmem hop' with rfl | hin
        · cases hk
        · exact absurd hk (hsync op' (hrest hin).1 ht)
  · rw [if_neg hans] at hzero
    exact absurd hzero (setError_error_ne (by omega))

/-- The last operation of a task leaves no other one. -/
theorem not_other (hgood : c.view.Good) (hop : op ∈ c.inFlight) (hkind : op.kind ≠ .fsync)
    (hone : (c.tasks op.task).activeOps = 1) : ∀ op' ∈ c.inFlight.erase op, op'.task ≠ op.task := by
  intro op' hop' ht
  have hcount : (c.tasks op.task).activeOps = c.inFlight.countP (CopyOp.Counts op.task) :=
    hgood.taskActive op.task
  rw [← Multiset.cons_erase hop, Multiset.countP_cons_of_pos _ ⟨rfl, hkind⟩, hone] at hcount
  have hzero : (c.inFlight.erase op).countP (CopyOp.Counts op.task) = 0 := by omega
  exact Multiset.countP_eq_zero.mp hzero op' hop' ⟨ht, ne_fsync_of_erase hgood hop hkind hop' ht⟩

/-- After a full write its bytes are in the destination, and if they were the last ones the task is
copied. -/
theorem onWriteComplete_content (hc : TaskContent f c op.task) (hgood : c.view.Good)
    (hop : op ∈ c.inFlight) (hkind : op.kind = .write)
    (hapart : (c.tasks op.task).src ≠ (c.tasks op.task).dst)
    (hzero : (onWriteComplete a op.slot r
      (transfer op r { c with inFlight := c.inFlight.erase op })).error = 0) :
    TaskContent f (onWriteComplete a op.slot r
      (transfer op r { c with inFlight := c.inFlight.erase op })) op.task := by
  have hne : op.kind ≠ .fsync := by
    rw [hkind]
    exact fun heq => (by cases heq)
  have hover := Over.transfer (r := r) hgood hop
  set x := transfer op r { c with inFlight := c.inFlight.erase op } with hx
  have hd : Done op r c x := transfer_done
  have hcontent := hc.ops op hop rfl hne
  have hopened := hgood.opened op hop
  have hslots : x.slots = c.slots := by
    rw [hx]
    unfold transfer
    rw [hkind]
    rfl
  have hdst : x.files (c.tasks op.task).dst =
      (c.files (c.tasks op.task).dst).write op.offset (c.slots op.slot).buf r.toNat := by
    rw [hx]
    unfold transfer
    rw [hkind]
    exact Function.update_self _ _ _
  unfold onWriteComplete at hzero ⊢
  rw [hover.task] at hzero ⊢
  dsimp only at hzero ⊢
  set d := if r < 0 then x.setError r
    else if r.toNat ≠ (x.slots op.slot).bytes then x.setError (-5)
    else
      { x.modifyTask op.task fun task =>
          { task with bytesWritten := task.bytesWritten + (x.slots op.slot).dataBytes } with
        totalWritten := x.totalWritten + (x.slots op.slot).dataBytes } with hdef
  have hdzero : d.error = 0 := by
    split_ifs at hzero
    · exact finishTask_error (c := d.release op.slot op.task) hzero
    · exact hzero
  by_cases hneg : r < 0
  · rw [hdef, if_pos hneg] at hdzero
    exact absurd hdzero (setError_error_ne (ne_of_lt hneg))
  by_cases hshort : r.toNat ≠ (x.slots op.slot).bytes
  · rw [hdef, if_neg hneg, if_pos hshort] at hdzero
    exact absurd hdzero (setError_error_ne (by decide))
  have hlen : r.toNat = op.len := by
    rw [not_not.mp hshort, hslots]
    exact hcontent.bytes
  have heq : d = { x.modifyTask op.task fun task =>
        { task with bytesWritten := task.bytesWritten + (x.slots op.slot).dataBytes } with
      totalWritten := x.totalWritten + (x.slots op.slot).dataBytes } := by
    rw [hdef, if_neg hneg, if_neg hshort]
  have htask : d.tasks op.task = { c.tasks op.task with
      bytesWritten := (c.tasks op.task).bytesWritten + (x.slots op.slot).dataBytes } := by
    rw [heq]
    refine (modifyTask_self x op.task fun task =>
      { task with bytesWritten := task.bytesWritten + (x.slots op.slot).dataBytes }).trans ?_
    rw [hd.tasks]
  have hfiles : d.files = x.files := by rw [heq]; rfl
  have hin : d.inFlight = c.inFlight.erase op := by
    rw [heq]
    exact hd.inFlight
  have hconfig : d.config = c.config := by
    rw [heq]
    exact hd.config
  have hdslots : d.slots = c.slots := by
    rw [heq]
    exact hslots
  have hwrite : d.files (c.tasks op.task).dst =
      (c.files (c.tasks op.task).dst).write op.offset (c.slots op.slot).buf op.len := by
    rw [hfiles, hdst, hlen]
  have hbyte {p : ℕ} (hp : p < (c.tasks op.task).fileSize) (hle : op.offset ≤ p)
      (hlt : p < op.offset + op.len) :
      (c.slots op.slot).buf (p - op.offset) = (f (c.tasks op.task).src).byte p := by
    have hdata : p - op.offset < (c.slots op.slot).dataBytes := by
      rcases hcontent.last with hend | hpad
      · omega
      · omega
    rw [hcontent.buf hkind _ hdata]
    congr 1
    omega
  have hrtask : (d.release op.slot op.task).tasks op.task = { c.tasks op.task with
      activeOps := (c.tasks op.task).activeOps - 1
      bytesWritten := (c.tasks op.task).bytesWritten + (x.slots op.slot).dataBytes } := by
    rw [release_self, htask]
  have hsettled : TaskContent f (d.release op.slot op.task) op.task := by
    refine hc.settle hgood hop hne hconfig hrtask hin (fun j hj => ?_) ?_ (fun hdirect => ?_)
      (fun p hp harr => ?_) fun p hle hlt => ?_
    · refine (Function.update_of_ne hj _ _).trans ?_
      rw [hdslots]
    · change d.files _ = _
      rw [hfiles]
      exact hd.files _ hapart
    · change (d.files _).size ≤ _
      rw [hwrite]
      have hsize := hc.bound (by rw [show (c.tasks op.task).srcFd = _ from hopened.src]) hdirect
      have hinside := hcontent.inside
      have hplain : op.len = (c.slots op.slot).dataBytes := by
        rw [hcontent.len, padded, hdirect]
        exact if_neg Bool.false_ne_true
      by_cases hzero' : op.len = 0
      · unfold ByteFile.write
        dsimp only
        rw [if_pos hzero']
        exact hsize
      · rw [ByteFile.size_write hzero']
        exact max_le hsize (by omega)
    · unfold Arrived at harr ⊢
      rw [hrtask]
      change p < (d.files (c.tasks op.task).dst).size ∧
        (d.files (c.tasks op.task).dst).byte p = _
      rw [hwrite]
      refine ⟨?_, ?_⟩
      · unfold ByteFile.write
        dsimp only
        split_ifs
        · exact harr.1
        · exact lt_of_lt_of_le harr.1 (le_max_left _ _)
      · by_cases hmem : op.offset ≤ p ∧ p < op.offset + op.len
        · rw [ByteFile.byte_write_of_mem hmem.1 hmem.2]
          exact hbyte hp hmem.1 hmem.2
        · rw [ByteFile.byte_write_of_not_mem hmem]
          exact harr.2
    · have hdata := hcontent.inside
      have hle' : (c.slots op.slot).dataBytes ≤ op.len := hcontent.len ▸ le_padded _
      unfold Arrived
      rw [hrtask]
      change p < (d.files (c.tasks op.task).dst).size ∧
        (d.files (c.tasks op.task).dst).byte p = _
      rw [hwrite, ByteFile.size_write (by omega), ByteFile.byte_write_of_mem hle (by omega)]
      exact ⟨lt_max_of_lt_right (by omega), hbyte (by omega) hle (by omega)⟩
  split_ifs at hzero ⊢ with hfin
  · obtain ⟨hreads, hnone, -⟩ := hfin
    have hone : (c.tasks op.task).activeOps = 1 := by
      rw [hrtask] at hnone
      change (c.tasks op.task).activeOps - 1 = 0 at hnone
      omega
    refine finishTask_content hsettled ?_ hreads (fun op' hop' => ?_) ?_ hzero
    · rw [hrtask]
      exact ⟨hopened.done, hopened.src, hopened.dst⟩
    · refine not_other hgood hop hne hone op' ?_
      rw [← hin]
      exact hop'
    · rw [hrtask]
      exact hapart
  · exact hsettled

/-- After an fsync the task stays copied. -/
theorem onFsyncComplete_content (hc : TaskContent f c op.task) (hgood : c.view.Good)
    (hop : op ∈ c.inFlight) (hkind : op.kind = .fsync) :
    TaskContent f (onFsyncComplete op.slot r
      (transfer op r { c with inFlight := c.inFlight.erase op })) op.task := by
  have hover := Over.transfer (r := r) hgood hop
  set x := transfer op r { c with inFlight := c.inFlight.erase op } with hx
  have hfiles : x.files = c.files := by
    rw [hx]
    unfold transfer
    rw [hkind]
  have hd : Done op r c x := transfer_done
  have hreads : (c.tasks op.task).readsDone = true := (hgood.syncs op hop hkind).1
  unfold onFsyncComplete
  rw [hover.task]
  dsimp only
  set d := if r < 0 then x.setError r else x with hdef
  have hsame : d.tasks = c.tasks ∧ d.files = c.files ∧ d.inFlight = c.inFlight.erase op := by
    rw [hdef]
    unfold setError
    split_ifs <;> exact ⟨hd.tasks, hfiles, hd.inFlight⟩
  obtain ⟨htasks, hfiles', hin⟩ := hsame
  have hself := closeTask_self d op.task
  rw [htasks] at hself
  refine .of_copied ?_ ?_ ?_ (fun hfresh => ?_) (fun op' hop' ht => ?_) ?_
  · change d.files ((d.closeTask op.task).tasks op.task).src =
      f ((d.closeTask op.task).tasks op.task).src
    rw [hself, hfiles']
    exact hc.source
  · change (f ((d.closeTask op.task).tasks op.task).src).size =
      ((d.closeTask op.task).tasks op.task).fileSize
    rw [hself]
    exact hc.size
  · change ((d.closeTask op.task).tasks op.task).readOffset =
      ((d.closeTask op.task).tasks op.task).fileSize
    rw [hself]
    exact hc.reads hreads
  · have hdone : ((d.closeTask op.task).tasks op.task).done = false := hfresh.done
    rw [hself] at hdone
    cases hdone
  · have hop'' : op' ∈ c.inFlight.erase op := hin ▸ hop'
    have heq := (hgood.syncs op hop hkind).2 op' (Multiset.mem_of_mem_erase hop'') ht
    rw [heq]
    exact hkind
  · change d.files ((d.closeTask op.task).tasks op.task).dst =
      f ((d.closeTask op.task).tasks op.task).src
    rw [hself, hfiles']
    exact hc.copied (.inr ⟨op, hop, rfl, hkind⟩)

theorem setError_leaves (e : ℤ) : Leaves t i c (c.setError e) := by
  unfold setError
  split_ifs
  all_goals
    exact ⟨⟨rfl, rfl, fun _ _ => rfl⟩, rfl, rfl, rfl, fun _ _ => rfl, fun _ _ => rfl,
      fun _ _ => Iff.rfl⟩

theorem release_leaves : Leaves t i c (c.release i t) := by
  have hself := release_self c i t
  refine ⟨release_steps.beside, ?_, ?_, ?_, fun _ _ => rfl, fun j hj =>
    Function.update_of_ne hj _ _,
    fun _ _ => Iff.rfl⟩
  all_goals rw [hself]

theorem modifyTask_leaves {g : FileTask → FileTask} (hsrc : (g (c.tasks t)).src = (c.tasks t).src)
    (hdst : (g (c.tasks t)).dst = (c.tasks t).dst)
    (hsize : (g (c.tasks t)).fileSize = (c.tasks t).fileSize) :
    Leaves t i c (c.modifyTask t g) := by
  have hself := modifyTask_self c t g
  refine ⟨⟨rfl, rfl, fun _ ht' => modifyTask_of_ne c g ht'⟩, ?_, ?_, ?_, fun _ _ => rfl,
    fun _ _ => rfl, fun _ _ => Iff.rfl⟩
  · rw [hself, hsrc]
  · rw [hself, hdst]
  · rw [hself, hsize]

theorem modifySlot_leaves (g : BufSlot → BufSlot) : Leaves t i c (c.modifySlot i g) :=
  ⟨⟨rfl, rfl, fun _ _ => rfl⟩, rfl, rfl, rfl, fun _ _ => rfl, fun _ hj =>
    Function.update_of_ne hj _ _,
    fun _ _ => Iff.rfl⟩

theorem Done.leaves {x : CopyCtx} (h : Done op r c x) : Leaves op.task op.slot c x := by
  refine ⟨h.beside, ?_, ?_, ?_, h.files, h.slots, fun op' hop' => ?_⟩
  · rw [h.tasks]
  · rw [h.tasks]
  · rw [h.tasks]
  · rw [h.inFlight]
    exact Multiset.mem_erase_of_ne fun heq => hop' (congrArg CopyOp.task heq)

theorem onReadComplete_leaves (htask : (c.slots i).task = some t) :
    Leaves t i c (onReadComplete a i r c) := by
  unfold onReadComplete
  rw [htask]
  dsimp only
  by_cases hres : r ≤ 0
  · rw [if_pos hres]
    split_ifs
    · exact (setError_leaves _).trans release_leaves
    · exact release_leaves
  rw [if_neg hres]
  refine (modifySlot_leaves fun slot =>
    { slot with
      buf := fun p => if r.toNat ≤ p ∧
        p < (if c.config.useDirect = true then roundUpSz r.toNat else r.toNat)
          then 0 else slot.buf p
      dataBytes := r.toNat
      bytes := if c.config.useDirect = true then roundUpSz r.toNat else r.toNat
      state := .writing }).trans ?_
  by_cases hans : a.write = 0
  · rw [if_pos hans]
    refine ⟨⟨rfl, rfl, fun _ _ => rfl⟩, rfl, rfl, rfl, fun _ _ => rfl, fun _ _ => rfl,
      fun op hop => Multiset.mem_cons.trans (or_iff_right ?_)⟩
    rintro rfl
    exact hop rfl
  · rw [if_neg hans]
    exact (setError_leaves _).trans release_leaves

theorem onWriteComplete_leaves (htask : (c.slots i).task = some t) :
    Leaves t i c (onWriteComplete a i r c) := by
  unfold onWriteComplete
  rw [htask]
  dsimp only
  have hfirst : Leaves t i c (if r < 0 then c.setError r
      else if r.toNat ≠ (c.slots i).bytes then c.setError (-5)
      else
        { c.modifyTask t fun task =>
            { task with bytesWritten := task.bytesWritten + (c.slots i).dataBytes } with
          totalWritten := c.totalWritten + (c.slots i).dataBytes }) := by
    split_ifs
    · exact setError_leaves _
    · exact setError_leaves _
    · refine Leaves.trans (d := c.modifyTask t fun task =>
        { task with bytesWritten := task.bytesWritten + (c.slots i).dataBytes }) ?_
          ⟨⟨rfl, rfl, fun _ _ => rfl⟩, rfl, rfl, rfl, fun _ _ => rfl, fun _ _ => rfl,
            fun _ _ => Iff.rfl⟩
      exact modifyTask_leaves rfl rfl rfl
  have hlast (x : CopyCtx) : Leaves t i x
      (if ((x.release i t).tasks t).readsDone = true ∧ ((x.release i t).tasks t).activeOps = 0 ∧
          ((x.release i t).tasks t).done = false then finishTask a (x.release i t) t i
        else x.release i t) := by
    split_ifs
    · exact release_leaves.trans finishTask_leaves
    · exact release_leaves
  exact hfirst.trans (hlast _)

theorem onFsyncComplete_leaves (htask : (c.slots i).task = some t) :
    Leaves t i c (onFsyncComplete i r c) := by
  unfold onFsyncComplete
  rw [htask]
  dsimp only
  have hfirst : Leaves t i c (if r < 0 then c.setError r else c) := by
    split_ifs
    · exact setError_leaves _
    · exact ⟨.refl, rfl, rfl, rfl, fun _ _ => rfl, fun _ _ => rfl, fun _ _ => Iff.rfl⟩
  refine hfirst.trans ?_
  set x := if r < 0 then c.setError r else c
  have hclose : Leaves t i x (x.closeTask t) := modifyTask_leaves rfl rfl rfl
  refine hclose.trans ⟨⟨rfl, rfl, fun _ _ => rfl⟩, rfl, rfl, rfl, fun _ _ => rfl,
    fun _ hj => Function.update_of_ne hj _ _, fun _ _ => Iff.rfl⟩

/-- **Callbacks keep the bytes**, where reads are full. -/
theorem complete_content (hgood : c.view.Good) (hapart : c.Apart) (hc : Content f c)
    (hfull : c.FullRead op r) (heq : complete a op r c = some d) :
    Content f d ∧ SamePaths c d := by
  unfold complete at heq
  split_ifs at heq with hcan
  obtain rfl := Option.some.inj heq
  have hop := hcan.1
  have htask := (Over.transfer (r := r) hgood hop).task
  have hd : Done op r c (transfer op r { c with inFlight := c.inFlight.erase op }) := transfer_done
  have hslot : ∀ op' ∈ c.inFlight, op'.task ≠ op.task → op'.slot ≠ op.slot := fun op' hop' hne =>
    slot_ne_of_ne hgood hop hop' fun heq => hne (congrArg CopyOp.task heq)
  have hkeep {y : CopyCtx} (hl : Leaves op.task op.slot c y) (herr : y.error = 0 → c.error = 0)
      (hy : op.task < c.totalFiles → TaskContent f c op.task → y.error = 0 →
        TaskContent f y op.task) : Content f y ∧ SamePaths c y := by
    refine ⟨fun hzero => ?_, hl.samePaths⟩
    obtain ⟨hrange, hall⟩ := hc (herr hzero)
    have ht := hrange op hop
    exact hl.step hapart ht hslot hc herr (hy ht (hall _ ht)) hzero
  have hsrc (ht : op.task < c.totalFiles) : (c.tasks op.task).src ≠ (c.tasks op.task).dst :=
    (hapart _ ht _ ht).1.symm
  unfold dispatch
  cases hkind : op.kind with
  | read =>
      refine hkeep (hd.leaves.trans (onReadComplete_leaves htask))
        (fun hzero => hd.error ▸ (onReadComplete_steps htask).1.error hzero) fun ht hct hzero => ?_
      refine onReadComplete_content hct hgood hop hkind hfull ?_ hzero
      exact hd.error ▸ (onReadComplete_steps htask).1.error hzero
  | write =>
      refine hkeep (hd.leaves.trans (onWriteComplete_leaves htask))
        (fun hzero => hd.error ▸ (onWriteComplete_steps htask).1.error hzero) fun ht hct hzero => ?_
      exact onWriteComplete_content hct hgood hop hkind (hsrc ht) hzero
  | fsync =>
      refine hkeep (hd.leaves.trans (onFsyncComplete_leaves htask))
        (fun hzero => hd.error ▸ (onFsyncComplete_steps htask).1.error hzero) fun ht hct hzero => ?_
      exact onFsyncComplete_content hct hgood hop hkind

end CopyCtx

end Aura
