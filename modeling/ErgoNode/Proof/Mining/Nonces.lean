import ErgoNode.Lib.Run
import ErgoNode.Mining.Worker
import ErgoNode.Proof.Mining.Search
import ErgoNode.Proof.Sample
import Mathlib.Data.List.Nodup

/-!
# The nonces that workers try

A worker starts on a task at its own offset plus its hash counter. It tests no nonce of a task again as
long as the counter is not reset before it goes back to the task, and it stays in its partition as long as
the counter is low when it takes up a task.
-/

namespace ErgoNode.Proof.Mining
open Lib MiningWorker

def noncesFrom (start : UInt64) (count : Nat) : List UInt64 := (List.range count).map fun i => start + UInt64.ofNat i

@[simp] theorem length_noncesFrom (start : UInt64) (count : Nat) : (noncesFrom start count).length = count := by
  simp [noncesFrom]

theorem noncesFrom_append (start : UInt64) (first second : Nat) :
    noncesFrom start first ++ noncesFrom (start + UInt64.ofNat first) second = noncesFrom start (first + second) := by
  simp [noncesFrom, List.range_add, Function.comp_def, UInt64.add_assoc]

theorem toNat_ofNat_of_fits {n : Nat} (fits : n < 2 ^ 64) : (UInt64.ofNat n).toNat = n := by
  rw [UInt64.toNat_ofNat', Nat.mod_eq_of_lt fits]

theorem noncesFrom_nodup {start : UInt64} {count : Nat} (few : count ≤ 2 ^ 64) : (noncesFrom start count).Nodup := by
  refine List.Nodup.map_on ?_ List.nodup_range
  intro i here j there same
  have equal := congrArg UInt64.toNat ((UInt64.add_right_inj start).mp same)
  rw [List.mem_range] at here there
  rwa [toNat_ofNat_of_fits (by omega), toNat_ofNat_of_fits (by omega)] at equal

/-! ### One worker -/

/-- The nonces tested on a task that was taken up once: `start` is what the hash counter was then, and
`rewound` whether it was reset since. -/
structure Stint where
  task : MiningTask
  start : Nat
  rewound : Bool
  nonces : List UInt64

def Stint.finish (stint : Stint) : Nat := stint.start + stint.nonces.length

/-- What a worker has done, the last first. `counted` is what the hash counter would be if it did not wrap
around. -/
structure Trail where
  counted : Nat
  stints : List Stint

namespace Trail

def empty : Trail := ⟨0, []⟩

def tested (trail : Trail) (task : MiningTask) : List UInt64 :=
  (trail.stints.filter fun stint => stint.task = task).flatMap Stint.nonces

def follow (sr : SigmaRust) (worker : MiningWorker) (trail : Trail) : Trail :=
  match worker.phase with
  | .taken task => { trail with stints := ⟨task, trail.counted, false, []⟩ :: trail.stints }
  | .searching task localNonce =>
      match trail.stints with
      | [] => trail
      | stint :: rest =>
          let tried := noncesFrom localNonce (tryBatch sr task localNonce).2.toNat
          { trail with stints := { stint with nonces := stint.nonces ++ tried } :: rest }
  | .searched _ _ (some _) batchHashes => { trail with counted := trail.counted + batchHashes.toNat }
  | .searched _ _ none _ => { trail with counted := trail.counted + batchSize.toNat }
  | _ => trail

def reset (trail : Trail) : Trail := ⟨0, trail.stints.map fun stint => { stint with rewound := true }⟩

end Trail

section Worker
variable {sr : SigmaRust} {channel : TaskChannel} {delivered : Bool} {worker : MiningWorker} {trail : Trail}
variable {task : MiningTask} {localNonce : UInt64}

/-- The worker is not about to go back to a task after a reset of its counter, or after an overflow. -/
def Onward (worker : MiningWorker) (trail : Trail) : Prop :=
  ∀ task, worker.phase = .taken task →
    trail.counted < 2 ^ 63 ∧ ∀ stint ∈ trail.stints, stint.task = task → stint.rewound = false

def pending (worker : MiningWorker) : Nat :=
  match worker.phase with
  | .searched _ _ (some _) batchHashes => batchHashes.toNat
  | .searched _ _ none _ => batchSize.toNat
  | _ => 0

def Placed (worker : MiningWorker) (trail : Trail) : Prop :=
  match worker.phase with
  | .mining task localNonce | .searching task localNonce => ∃ stint rest, trail.stints = stint :: rest ∧
      stint.task = task ∧ localNonce = worker.nonceOffset + UInt64.ofNat stint.finish
  | .searched task localNonce none _ => ∃ stint rest, trail.stints = stint :: rest ∧
      stint.task = task ∧ localNonce + batchSize = worker.nonceOffset + UInt64.ofNat stint.finish
  | _ => True

structure Sound (worker : MiningWorker) (trail : Trail) : Prop where
  counter : worker.hashCount = UInt64.ofNat trail.counted
  gapless : ∀ stint ∈ trail.stints,
    stint.nonces = noncesFrom (worker.nonceOffset + UInt64.ofNat stint.start) stint.nonces.length
  ordered : trail.stints.Pairwise fun newer older => newer.task = older.task → older.finish ≤ newer.start
  behind : ∀ stint ∈ trail.stints, stint.rewound = false → stint.finish ≤ trail.counted + pending worker
  last : ∀ stint rest, trail.stints = stint :: rest → stint.rewound = false →
    stint.finish = trail.counted + pending worker
  early : ∀ stint ∈ trail.stints, stint.start < 2 ^ 63
  placed : Placed worker trail

theorem tryBatch_snd_of_none (nothing : (tryBatch sr task localNonce).1 = none) :
    (tryBatch sr task localNonce).2 = batchSize := by
  unfold tryBatch AutolykosSolver.trySolveBatch at nothing ⊢
  dsimp only at nothing ⊢
  have found := (searchBatch_eq_none.mp (Prod.ext nothing rfl)).2
  exact found.trans (by decide)

theorem Sound.move {moved : MiningWorker} (sound : Sound worker trail) (counter : moved.hashCount = worker.hashCount)
    (offset : moved.nonceOffset = worker.nonceOffset) (same : pending moved = pending worker)
    (placed : Placed moved trail) : Sound moved trail where
  counter := counter.trans sound.counter
  gapless := offset ▸ sound.gapless
  ordered := sound.ordered
  behind := same ▸ sound.behind
  last := same ▸ sound.last
  early := sound.early
  placed := placed

theorem Sound.take (sound : Sound worker trail) (phase : worker.phase = .taken task) (onward : Onward worker trail) :
    Sound { worker with phase := .mining task (worker.nonceOffset + worker.hashCount) }
      { trail with stints := ⟨task, trail.counted, false, []⟩ :: trail.stints } := by
  obtain ⟨low, unreset⟩ := onward task phase
  have settled : pending worker = 0 := by
    unfold pending
    rw [phase]
  have behind := sound.behind
  rw [settled] at behind
  refine ⟨sound.counter, ?_, ?_, ?_, ?_, ?_, ⟨_, _, rfl, rfl, ?_⟩⟩
  · exact List.forall_mem_cons.mpr ⟨rfl, sound.gapless⟩
  · refine List.pairwise_cons.mpr ⟨fun older member same => ?_, sound.ordered⟩
    exact behind older member (unreset older member same.symm)
  · exact List.forall_mem_cons.mpr ⟨fun _ => Nat.le_refl _, behind⟩
  · intro stint rest first _
    cases first
    rfl
  · exact List.forall_mem_cons.mpr ⟨low, sound.early⟩
  · rw [sound.counter]
    rfl

theorem pending_searched (batch : Option AutolykosSolution × UInt64) (searched : tryBatch sr task localNonce = batch) :
    pending { worker with phase := .searched task localNonce batch.1 batch.2 } = batch.2.toNat := by
  obtain ⟨result, batchHashes⟩ := batch
  cases result with
  | some solution => rfl
  | none =>
      have whole := tryBatch_snd_of_none (congrArg Prod.fst searched)
      rw [searched] at whole
      exact congrArg UInt64.toNat whole.symm

theorem Sound.search {stint : Stint} {rest : List Stint} (sound : Sound worker trail)
    (phase : worker.phase = .searching task localNonce) (shape : trail.stints = stint :: rest)
    (same : stint.task = task) (here : localNonce = worker.nonceOffset + UInt64.ofNat stint.finish) :
    Sound { worker with phase := .searched task localNonce (tryBatch sr task localNonce).1 (tryBatch sr task localNonce).2 }
      { trail with stints :=
          { stint with nonces := stint.nonces ++ noncesFrom localNonce (tryBatch sr task localNonce).2.toNat } :: rest } := by
  rcases searched : tryBatch sr task localNonce with ⟨result, batchHashes⟩
  have waiting : pending { worker with phase := .searched task localNonce result batchHashes } = batchHashes.toNat :=
    pending_searched (result, batchHashes) searched
  have settled : pending worker = 0 := by
    unfold pending
    rw [phase]
  obtain ⟨counter, gapless, ordered, behind, last, early, -⟩ := sound
  rw [shape] at gapless ordered behind early
  rw [settled] at behind last
  rw [List.forall_mem_cons] at gapless behind early
  rw [List.pairwise_cons] at ordered
  have length : (stint.nonces ++ noncesFrom localNonce batchHashes.toNat).length =
      stint.nonces.length + batchHashes.toNat := by simp
  have further : Stint.finish { stint with nonces := stint.nonces ++ noncesFrom localNonce batchHashes.toNat } =
      stint.finish + batchHashes.toNat := by
    rw [Stint.finish, length, Stint.finish, Nat.add_assoc]
  refine ⟨counter, ?_, ?_, ?_, ?_, ?_, ?_⟩
  · refine List.forall_mem_cons.mpr ⟨?_, gapless.2⟩
    dsimp only
    rw [length, ← noncesFrom_append, ← gapless.1, here, Stint.finish, UInt64.ofNat_add, UInt64.add_assoc]
  · exact List.pairwise_cons.mpr ⟨ordered.1, ordered.2⟩
  · rw [waiting]
    refine List.forall_mem_cons.mpr ⟨fun kept => ?_, fun older member kept => ?_⟩
    · exact further ▸ Nat.add_le_add_right (behind.1 kept) _
    · exact Nat.le_trans (behind.2 older member kept) (Nat.le_add_right _ _)
  · intro head tail first kept
    cases first
    rw [waiting, further, last stint rest shape kept, Nat.add_zero]
  · exact List.forall_mem_cons.mpr ⟨early.1, early.2⟩
  · cases result with
    | some solution => trivial
    | none =>
        have whole : batchHashes = batchSize := by
          simpa [searched] using tryBatch_snd_of_none (congrArg Prod.fst searched)
        refine ⟨_, rest, rfl, same, ?_⟩
        rw [further, here, UInt64.ofNat_add, UInt64.ofNat_toNat, UInt64.add_assoc, whole]

theorem Sound.tally {moved : MiningWorker} {hashes : UInt64} (sound : Sound worker trail)
    (counter : moved.hashCount = worker.hashCount + hashes) (offset : moved.nonceOffset = worker.nonceOffset)
    (due : pending worker = hashes.toNat) (settled : pending moved = 0)
    (placed : Placed moved { trail with counted := trail.counted + hashes.toNat }) :
    Sound moved { trail with counted := trail.counted + hashes.toNat } where
  counter := by rw [counter, sound.counter, UInt64.ofNat_add, UInt64.ofNat_toNat]
  gapless := offset ▸ sound.gapless
  ordered := sound.ordered
  behind stint member kept := by
    rw [settled, Nat.add_zero, ← due]
    exact sound.behind stint member kept
  last stint rest first kept := by
    rw [settled, Nat.add_zero, ← due]
    exact sound.last stint rest first kept
  early := sound.early
  placed := placed

theorem Sound.advance (sound : Sound worker trail) (onward : Onward worker trail) :
    Sound (worker.advance sr channel delivered) (trail.follow sr worker) := by
  have placed := sound.placed
  unfold Placed at placed
  unfold MiningWorker.advance Trail.follow
  cases phase : worker.phase with
  | waiting =>
      have settled : pending worker = 0 := by
        unfold pending
        rw [phase]
      dsimp only
      split
      · exact sound.move rfl rfl settled.symm trivial
      · cases channel.value with
        | none => exact sound.move rfl rfl settled.symm trivial
        | some task => exact sound.move rfl rfl settled.symm trivial
  | taken task => exact sound.take phase onward
  | mining task localNonce =>
      rw [phase] at placed
      have settled : pending worker = 0 := by
        unfold pending
        rw [phase]
      dsimp only
      split
      · exact sound.move rfl rfl settled.symm trivial
      · split
        · exact sound.move rfl rfl settled.symm trivial
        · exact sound.move rfl rfl settled.symm placed
  | searching task localNonce =>
      rw [phase] at placed
      obtain ⟨stint, rest, shape, same, here⟩ := placed
      dsimp only
      rw [shape]
      exact sound.search phase shape same here
  | searched task localNonce result batchHashes =>
      rw [phase] at placed
      cases result with
      | none =>
          have due : pending worker = batchSize.toNat := by
            unfold pending
            rw [phase]
          exact sound.tally rfl rfl due rfl placed
      | some solution =>
          have due : pending worker = batchHashes.toNat := by
            unfold pending
            rw [phase]
          cases delivered with
          | true => exact sound.tally rfl rfl due rfl trivial
          | false => exact sound.tally rfl rfl due rfl trivial
  | ended => exact sound

theorem Sound.reset (sound : Sound worker trail) : Sound worker.resetHashCount trail.reset where
  counter := rfl
  gapless := by
    intro stint member
    obtain ⟨before, earlier, rfl⟩ := List.mem_map.mp member
    exact sound.gapless before earlier
  ordered := List.pairwise_map.mpr sound.ordered
  behind := by
    intro stint member kept
    obtain ⟨before, -, rfl⟩ := List.mem_map.mp member
    exact nomatch kept
  last := by
    intro stint rest first kept
    have member : stint ∈ trail.reset.stints := first ▸ List.mem_cons_self
    obtain ⟨before, -, rfl⟩ := List.mem_map.mp member
    exact nomatch kept
  early := by
    intro stint member
    obtain ⟨before, earlier, rfl⟩ := List.mem_map.mp member
    exact sound.early before earlier
  placed := by
    have placed := sound.placed
    have unmoved : worker.resetHashCount.phase = worker.phase := rfl
    unfold Placed at placed ⊢
    rw [unmoved]
    have head {stint : Stint} {rest : List Stint} (shape : trail.stints = stint :: rest) :
        trail.reset.stints = { stint with rewound := true } :: rest.map fun stint => { stint with rewound := true } := by
      rw [Trail.reset, shape, List.map_cons]
    split at placed
    · obtain ⟨stint, rest, shape, same, here⟩ := placed
      exact ⟨_, _, head shape, same, here⟩
    · obtain ⟨stint, rest, shape, same, here⟩ := placed
      exact ⟨_, _, head shape, same, here⟩
    · obtain ⟨stint, rest, shape, same, here⟩ := placed
      exact ⟨_, _, head shape, same, here⟩
    · trivial

theorem sound_spawn (id : Nat) (random : UInt64) : Sound (.spawn id random) .empty where
  counter := rfl
  gapless := List.forall_mem_nil _
  ordered := .nil
  behind := List.forall_mem_nil _
  last := nofun
  early := List.forall_mem_nil _
  placed := trivial

/-! The nonces of one task. -/

theorem Sound.mem_nonces (sound : Sound worker trail) {stint : Stint} (member : stint ∈ trail.stints) {nonce : UInt64}
    (here : nonce ∈ stint.nonces) :
    ∃ place, stint.start ≤ place ∧ place < stint.finish ∧ nonce = worker.nonceOffset + UInt64.ofNat place := by
  rw [sound.gapless stint member] at here
  obtain ⟨i, inside, rfl⟩ := List.mem_map.mp here
  refine ⟨stint.start + i, Nat.le_add_right _ _, Nat.add_lt_add_left (List.mem_range.mp inside) _, ?_⟩
  rw [UInt64.ofNat_add, UInt64.add_assoc]

theorem mem_tested {nonce : UInt64} : nonce ∈ trail.tested task ↔
    ∃ stint ∈ trail.stints, stint.task = task ∧ nonce ∈ stint.nonces := by
  simp [Trail.tested, and_assoc]

theorem length_nonces_le {stint : Stint} (member : stint ∈ trail.stints) :
    stint.nonces.length ≤ (trail.tested stint.task).length := by
  have kept : stint ∈ trail.stints.filter fun other => other.task = stint.task :=
    List.mem_filter.mpr ⟨member, decide_eq_true rfl⟩
  obtain ⟨before, after, shape⟩ := List.append_of_mem kept
  rw [Trail.tested, shape, List.flatMap_append, List.flatMap_cons, List.length_append, List.length_append]
  omega

theorem Sound.place_lt (sound : Sound worker trail) {stint : Stint} (member : stint ∈ trail.stints)
    (few : (trail.tested stint.task).length < partitionSize / 2) {place : Nat} (inside : place < stint.finish) :
    place < 2 ^ 64 := by
  have start := sound.early stint member
  have length := length_nonces_le member
  have half : partitionSize / 2 < 2 ^ 63 := by decide
  unfold Stint.finish at inside
  omega

/-- Stints on one task that come one after the other share no nonce. -/
theorem Sound.tested_nodup (sound : Sound worker trail) (few : (trail.tested task).length < partitionSize / 2) :
    (trail.tested task).Nodup := by
  refine List.nodup_flatMap.mpr ⟨fun stint here => ?_, ?_⟩
  · obtain ⟨member, same⟩ := List.mem_filter.mp here
    have same := of_decide_eq_true same
    have length := length_nonces_le member
    rw [same] at length
    rw [sound.gapless stint member]
    exact noncesFrom_nodup (Nat.le_trans (Nat.le_trans length (Nat.le_of_lt few)) (by decide))
  · refine (sound.ordered.filter _).imp_of_mem fun {newer older} there here ordered => ?_
    obtain ⟨newerIn, newerSame⟩ := List.mem_filter.mp there
    obtain ⟨olderIn, olderSame⟩ := List.mem_filter.mp here
    have newerSame := of_decide_eq_true newerSame
    have olderSame := of_decide_eq_true olderSame
    intro nonce inNewer inOlder
    obtain ⟨place, after, inside, rfl⟩ := sound.mem_nonces newerIn inNewer
    obtain ⟨other, -, before, same⟩ := sound.mem_nonces olderIn inOlder
    have equal := congrArg UInt64.toNat ((UInt64.add_right_inj worker.nonceOffset).mp same)
    rw [toNat_ofNat_of_fits (sound.place_lt newerIn (newerSame ▸ few) inside),
      toNat_ofNat_of_fits (sound.place_lt olderIn (olderSame ▸ few) before)] at equal
    have apart := ordered (newerSame.trans olderSame.symm)
    omega

/-! Nonces stay in the worker's partition. -/

/-- A worker that takes up a task it was not on, or after a reset, starts in the first half of its
partition. -/
def Low (worker : MiningWorker) (trail : Trail) : Prop :=
  ∀ task, worker.phase = .taken task →
    worker.nonceOffset.toNat + trail.counted ≤ baseOffset worker.id + partitionSize / 2 ∨
      ∃ stint rest, trail.stints = stint :: rest ∧ stint.task = task ∧ stint.rewound = false

/-- Beyond the first half of its partition a worker has only gone by trying nonces of the task. -/
structure Inside (worker : MiningWorker) (trail : Trail) : Prop where
  base : baseOffset worker.id ≤ worker.nonceOffset.toNat
  reach : ∀ stint ∈ trail.stints, worker.nonceOffset.toNat + stint.finish ≤
    baseOffset worker.id + partitionSize / 2 + (trail.tested stint.task).length

theorem advance_keeps : (worker.advance sr channel delivered).id = worker.id ∧
    (worker.advance sr channel delivered).nonceOffset = worker.nonceOffset := by
  unfold MiningWorker.advance
  split
  · split
    · exact ⟨rfl, rfl⟩
    · split <;> exact ⟨rfl, rfl⟩
  · exact ⟨rfl, rfl⟩
  · split
    · exact ⟨rfl, rfl⟩
    · split <;> exact ⟨rfl, rfl⟩
  · exact ⟨rfl, rfl⟩
  · exact ⟨rfl, rfl⟩
  · exact ⟨rfl, rfl⟩
  · exact ⟨rfl, rfl⟩

theorem reach_take (inside : Inside worker trail) (sound : Sound worker trail) (low : Low worker trail)
    (phase : worker.phase = .taken task) :
    ∀ stint ∈ (trail.follow sr worker).stints, worker.nonceOffset.toNat + stint.finish ≤
      baseOffset worker.id + partitionSize / 2 + ((trail.follow sr worker).tested stint.task).length := by
  have settled : pending worker = 0 := by
    unfold pending
    rw [phase]
  have followed : trail.follow sr worker = { trail with stints := ⟨task, trail.counted, false, []⟩ :: trail.stints } := by
    unfold Trail.follow
    rw [phase]
  have same (other : MiningTask) : (trail.follow sr worker).tested other = trail.tested other := by
    rw [followed, Trail.tested, Trail.tested, List.filter_cons]
    split <;> rfl
  simp only [same]
  rw [followed]
  refine List.forall_mem_cons.mpr ⟨?_, inside.reach⟩
  change worker.nonceOffset.toNat + trail.counted ≤ _
  rcases low task phase with low | ⟨stint, rest, shape, rfl, kept⟩
  · omega
  · have reach := inside.reach stint (shape ▸ List.mem_cons_self)
    rw [sound.last stint rest shape kept, settled, Nat.add_zero] at reach
    exact reach

theorem length_tested_cons (counted : Nat) (stint : Stint) (rest : List Stint) (task : MiningTask) :
    (Trail.tested ⟨counted, stint :: rest⟩ task).length =
      (if stint.task = task then stint.nonces.length else 0) + (Trail.tested ⟨counted, rest⟩ task).length := by
  by_cases same : stint.task = task <;> simp [Trail.tested, same]

theorem reach_search (inside : Inside worker trail) {stint : Stint} {rest : List Stint} (tried : List UInt64)
    (shape : trail.stints = stint :: rest) :
    ∀ other ∈ { stint with nonces := stint.nonces ++ tried } :: rest, worker.nonceOffset.toNat + other.finish ≤
      baseOffset worker.id + partitionSize / 2 +
        (Trail.tested ⟨trail.counted, { stint with nonces := stint.nonces ++ tried } :: rest⟩ other.task).length := by
  have reach := inside.reach
  have before : trail = ⟨trail.counted, stint :: rest⟩ := by rw [← shape]
  rw [shape, before] at reach
  obtain ⟨head, others⟩ := List.forall_mem_cons.mp reach
  refine List.forall_mem_cons.mpr ⟨?_, fun other member => ?_⟩
  · rw [length_tested_cons, if_pos rfl] at head ⊢
    unfold Stint.finish at head ⊢
    dsimp only
    rw [List.length_append]
    omega
  · have reach := others other member
    rw [length_tested_cons] at reach ⊢
    have more : (if stint.task = other.task then stint.nonces.length else 0) ≤
        if stint.task = other.task then (stint.nonces ++ tried).length else 0 := by
      rw [List.length_append]
      split
      · exact Nat.le_add_right _ _
      · exact Nat.le_refl _
    dsimp only
    omega

theorem Inside.advance (inside : Inside worker trail) (sound : Sound worker trail) (low : Low worker trail) :
    Inside (worker.advance sr channel delivered) (trail.follow sr worker) := by
  obtain ⟨id, offset⟩ := @advance_keeps sr channel delivered worker
  refine ⟨by rw [id, offset]; exact inside.base, ?_⟩
  rw [id, offset]
  have placed := sound.placed
  unfold Placed at placed
  cases phase : worker.phase with
  | taken task => exact reach_take inside sound low phase
  | searching task localNonce =>
      rw [phase] at placed
      obtain ⟨stint, rest, shape, -, -⟩ := placed
      have reach := reach_search inside (noncesFrom localNonce (tryBatch sr task localNonce).2.toNat) shape
      simpa only [Trail.follow, phase, shape] using reach
  | searched task localNonce result batchHashes =>
      unfold Trail.follow
      rw [phase]
      cases result with
      | none => exact inside.reach
      | some solution => exact inside.reach
  | waiting => simpa only [Trail.follow, phase] using inside.reach
  | mining task localNonce => simpa only [Trail.follow, phase] using inside.reach
  | ended => simpa only [Trail.follow, phase] using inside.reach

theorem tested_reset (task : MiningTask) : trail.reset.tested task = trail.tested task := by
  simp only [Trail.tested, Trail.reset, List.filter_map, List.flatMap_map]
  rfl

theorem Inside.reset (inside : Inside worker trail) : Inside worker.resetHashCount trail.reset := by
  refine ⟨inside.base, fun stint member => ?_⟩
  rw [tested_reset]
  obtain ⟨before, earlier, rfl⟩ := List.mem_map.mp member
  exact inside.reach before earlier

theorem inside_spawn (id : Nat) (random : UInt64) : Inside (.spawn id random) .empty := by
  refine ⟨?_, List.forall_mem_nil _⟩
  have size : partitionSize = 72057594037927935 := rfl
  have below := Nat.mod_lt id (show maxNoncePartitions > 0 by decide)
  have most : maxNoncePartitions = 256 := rfl
  change baseOffset id ≤ (UInt64.ofNat (baseOffset id) + UInt64.ofNat (random.toNat % (partitionSize / 2))).toNat
  unfold baseOffset
  rw [size]
  rw [most] at below ⊢
  rw [← UInt64.ofNat_add, toNat_ofNat_of_fits] <;> omega

theorem Inside.mem_tested (inside : Inside worker trail) (sound : Sound worker trail)
    (few : (trail.tested task).length < partitionSize / 2) {nonce : UInt64} (member : nonce ∈ trail.tested task) :
    baseOffset worker.id ≤ nonce.toNat ∧ nonce.toNat < baseOffset worker.id + partitionSize := by
  obtain ⟨stint, listed, rfl, here⟩ := Mining.mem_tested.mp member
  obtain ⟨place, -, before, rfl⟩ := sound.mem_nonces listed here
  have reach := inside.reach stint listed
  have base := inside.base
  have size : partitionSize = 72057594037927935 := rfl
  have below := Nat.mod_lt worker.id (show maxNoncePartitions > 0 by decide)
  have most : maxNoncePartitions = 256 := rfl
  unfold baseOffset at base reach ⊢
  rw [size] at base reach few ⊢
  rw [most] at below base reach ⊢
  rw [UInt64.toNat_add, toNat_ofNat_of_fits (sound.place_lt listed (size ▸ few) before)]
  omega

theorem disjoint_tested {other : MiningWorker} {otherTrail : Trail} (inside : Inside worker trail)
    (sound : Sound worker trail) (otherInside : Inside other otherTrail) (otherSound : Sound other otherTrail)
    (apart : worker.id ≠ other.id) (low : worker.id < maxNoncePartitions) (otherLow : other.id < maxNoncePartitions)
    (few : (trail.tested task).length < partitionSize / 2)
    (otherFew : (otherTrail.tested task).length < partitionSize / 2) :
    List.Disjoint (trail.tested task) (otherTrail.tested task) := by
  intro nonce here there
  have mine := inside.mem_tested sound few here
  have theirs := otherInside.mem_tested otherSound otherFew there
  have size : partitionSize = 72057594037927935 := rfl
  unfold baseOffset at mine theirs
  rw [Nat.mod_eq_of_lt low, size] at mine
  rw [Nat.mod_eq_of_lt otherLow, size] at theirs
  omega

end Worker

/-! ### The pool -/

structure Crew where
  pool : WorkerPool
  trails : Nat → Trail

namespace Crew

def start (randoms : List UInt64) : Crew := ⟨.new randoms, fun _ => .empty⟩

def trailsAfter (sr : SigmaRust) (crew : Crew) (action : WorkerPool.Action) (index : Nat) : Trail :=
  match action, crew.pool.workers[index]? with
  | .advance moved _, some worker => if moved = index then (crew.trails index).follow sr worker else crew.trails index
  | .resetHashCount moved, some _ => if moved = index then (crew.trails index).reset else crew.trails index
  | _, _ => crew.trails index

def step (sr : SigmaRust) (crew : Crew) (action : WorkerPool.Action) : Option Crew :=
  some ⟨crew.pool.step sr action, crew.trailsAfter sr action⟩

end Crew

def Moves (allowed : MiningWorker → Trail → Prop) (crew : Crew) (action : WorkerPool.Action) : Prop :=
  ∀ index delivered worker, action = .advance index delivered → crew.pool.workers[index]? = some worker →
    allowed worker (crew.trails index)

/-- No worker has tested a nonce of a task twice. -/
def Once (crew : Crew) : Prop :=
  ∀ index worker, crew.pool.workers[index]? = some worker → ∀ task,
    ((crew.trails index).tested task).length < partitionSize / 2 → ((crew.trails index).tested task).Nodup

/-- No two workers of the partitioned ids have tested the same nonce of a task. -/
def Apart (crew : Crew) : Prop :=
  ∀ index other worker otherWorker, crew.pool.workers[index]? = some worker →
    crew.pool.workers[other]? = some otherWorker → worker.id ≠ otherWorker.id →
    worker.id < maxNoncePartitions → otherWorker.id < maxNoncePartitions → ∀ task,
      ((crew.trails index).tested task).length < partitionSize / 2 →
      ((crew.trails other).tested task).length < partitionSize / 2 →
        List.Disjoint ((crew.trails index).tested task) ((crew.trails other).tested task)

section Pool
variable {sr : SigmaRust} {crew next : Crew} {action : WorkerPool.Action} {randoms : List UInt64}
variable {actions : List WorkerPool.Action}

theorem modified {f : MiningWorker → MiningWorker} {moved index : Nat} {worker : MiningWorker}
    {workers : List MiningWorker} (there : (workers.modify moved f)[index]? = some worker) :
    ∃ before, workers[index]? = some before ∧ (if moved = index then f before else before) = worker := by
  rw [List.getElem?_modify] at there
  exact Option.map_eq_some_iff.mp there

theorem forall_worker_step (Good allowed : MiningWorker → Trail → Prop)
    (advances : ∀ {channel delivered worker trail}, Good worker trail → allowed worker trail →
      Good (worker.advance sr channel delivered) (trail.follow sr worker))
    (resets : ∀ {worker trail}, Good worker trail → Good worker.resetHashCount trail.reset)
    (stops : ∀ {worker trail}, Good worker trail → Good worker.stop trail)
    (good : ∀ index worker, crew.pool.workers[index]? = some worker → Good worker (crew.trails index))
    (moves : Moves allowed crew action) (taken : crew.step sr action = some next) :
    ∀ index worker, next.pool.workers[index]? = some worker → Good worker (next.trails index) := by
  cases taken
  intro index worker there
  cases action with
  | broadcastTask task => exact good index worker there
  | clearTask => exact good index worker there
  | advance moved delivered =>
      obtain ⟨before, here, rfl⟩ := modified there
      have held := good index before here
      simp only [Crew.trailsAfter, here]
      split
      · next same =>
          subst same
          exact advances held (moves moved delivered before rfl here)
      · exact held
  | resetHashCount moved =>
      obtain ⟨before, here, rfl⟩ := modified there
      have held := good index before here
      simp only [Crew.trailsAfter, here]
      split
      · exact resets held
      · exact held
  | stop moved =>
      obtain ⟨before, here, rfl⟩ := modified there
      have held := good index before here
      split
      · exact stops held
      · exact held

theorem sound_step (sound : ∀ index worker, crew.pool.workers[index]? = some worker → Sound worker (crew.trails index))
    (onward : Moves Onward crew action) (taken : crew.step sr action = some next) :
    ∀ index worker, next.pool.workers[index]? = some worker → Sound worker (next.trails index) :=
  forall_worker_step Sound Onward (fun sound onward => sound.advance onward) Sound.reset
    (fun sound => sound.move rfl rfl rfl sound.placed) sound onward taken

theorem sound_inside_step
    (good : ∀ index worker, crew.pool.workers[index]? = some worker →
      Sound worker (crew.trails index) ∧ Inside worker (crew.trails index))
    (moves : Moves Onward crew action ∧ Moves Low crew action) (taken : crew.step sr action = some next) :
    ∀ index worker, next.pool.workers[index]? = some worker →
      Sound worker (next.trails index) ∧ Inside worker (next.trails index) := by
  have both : Moves (fun worker trail => Onward worker trail ∧ Low worker trail) crew action :=
    fun index delivered worker same here =>
      ⟨moves.1 index delivered worker same here, moves.2 index delivered worker same here⟩
  exact forall_worker_step (fun worker trail => Sound worker trail ∧ Inside worker trail) _
    (fun held allowed => ⟨held.1.advance allowed.1, held.2.advance held.1 allowed.2⟩)
    (fun held => ⟨held.1.reset, held.2.reset⟩)
    (fun held => ⟨held.1.move rfl rfl rfl held.1.placed, ⟨held.2.base, held.2.reach⟩⟩) good both taken

theorem spawned {index : Nat} {worker : MiningWorker} (here : (WorkerPool.new randoms).workers[index]? = some worker) :
    ∃ random, worker = .spawn index random := by
  change (randoms.mapIdx MiningWorker.spawn)[index]? = some worker at here
  rw [List.getElem?_mapIdx, Option.map_eq_some_iff] at here
  obtain ⟨random, -, rfl⟩ := here
  exact ⟨random, rfl⟩

/-- Workers that go back to no task after a reset of their counter test no nonce of a task twice; and if
besides the counter is low whenever a worker takes up another task, no two workers test the same nonce. -/
theorem nonces_once_apart (sr : SigmaRust) (randoms : List UInt64) (actions : List WorkerPool.Action) :
    (Along (Crew.step sr) (Moves Onward) (.start randoms) actions →
      Always (Crew.step sr) Once (.start randoms) actions) ∧
    (Along (Crew.step sr) (fun crew action => Moves Onward crew action ∧ Moves Low crew action) (.start randoms) actions →
      Always (Crew.step sr) Apart (.start randoms) actions) := by
  constructor
  · intro along reached visited
    have sound := along.invariant (fun crew => ∀ index worker, crew.pool.workers[index]? = some worker →
      Sound worker (crew.trails index)) sound_step ?_ reached visited
    · exact fun index worker here task few => (sound index worker here).tested_nodup few
    · intro index worker here
      obtain ⟨random, rfl⟩ := spawned here
      exact sound_spawn index random
  · intro along reached visited
    have good := along.invariant (fun crew => ∀ index worker, crew.pool.workers[index]? = some worker →
      Sound worker (crew.trails index) ∧ Inside worker (crew.trails index)) sound_inside_step ?_ reached visited
    · intro index other worker otherWorker here there apart low otherLow task few otherFew
      obtain ⟨sound, inside⟩ := good index worker here
      obtain ⟨otherSound, otherInside⟩ := good other otherWorker there
      exact disjoint_tested inside sound otherInside otherSound apart low otherLow few otherFew
    · intro index worker here
      obtain ⟨random, rfl⟩ := spawned here
      exact ⟨sound_spawn index random, inside_spawn index random⟩

end Pool

/-! ### Samples -/

section Samples
open Sample

def sampleTask : MiningTask := ⟨[1, 2, 3], easyBits, 1, [2], 0⟩

def otherTask : MiningTask := ⟨[4, 5, 6], easyBits, 2, [2], 1⟩

instance (worker : MiningWorker) (trail : Trail) : Decidable (Onward worker trail) :=
  match phase : worker.phase with
  | .taken task => decidable_of_iff (trail.counted < 2 ^ 63 ∧
      ∀ stint ∈ trail.stints, stint.task = task → stint.rewound = false) (by simp [Onward, phase])
  | .waiting | .mining .. | .searching .. | .searched .. | .ended => isTrue (by simp [Onward, phase])

instance (worker : MiningWorker) (trail : Trail) : Decidable (Low worker trail) :=
  match phase : worker.phase with
  | .taken task =>
      match stints : trail.stints with
      | [] => decidable_of_iff (worker.nonceOffset.toNat + trail.counted ≤ baseOffset worker.id + partitionSize / 2)
          (by simp [Low, phase, stints])
      | stint :: _ => decidable_of_iff
          (worker.nonceOffset.toNat + trail.counted ≤ baseOffset worker.id + partitionSize / 2 ∨
            stint.task = task ∧ stint.rewound = false) (by simp [Low, phase, stints])
  | .waiting | .mining .. | .searching .. | .searched .. | .ended => isTrue (by simp [Low, phase])

instance (allowed : MiningWorker → Trail → Prop) [∀ worker trail, Decidable (allowed worker trail)] (crew : Crew)
    (action : WorkerPool.Action) : Decidable (Moves allowed crew action) :=
  match action with
  | .advance index delivered => decidable_of_iff
      (∀ worker ∈ crew.pool.workers[index]?, allowed worker (crew.trails index)) (by
      constructor
      · rintro all _ _ worker ⟨⟩ here
        exact all worker here
      · intro moves worker here
        exact moves index delivered worker rfl here)
  | .broadcastTask _ | .clearTask | .resetHashCount _ | .stop _ => isTrue nofun

/-- Each of two workers finds a solution of the first task, and then tries another. -/
def twoTaskActions : List WorkerPool.Action :=
  .broadcastTask sampleTask :: List.replicate 5 (.advance 0 true) ++ List.replicate 5 (.advance 1 true) ++
    .broadcastTask otherTask :: List.replicate 4 (.advance 1 true) ++ List.replicate 4 (.advance 0 true)

theorem twoTaskActions_once_apart :
    Always (Crew.step boxCodec) Once (.start [0, 0]) twoTaskActions ∧
      Always (Crew.step boxCodec) Apart (.start [0, 0]) twoTaskActions := by
  obtain ⟨once, apart⟩ := nonces_once_apart boxCodec [0, 0] twoTaskActions
  have along : Along (Crew.step boxCodec) (fun crew action => Moves Onward crew action ∧ Moves Low crew action)
      (.start [0, 0]) twoTaskActions := by decide
  exact ⟨once fun before action here reached ran => (along before action here reached ran).1, apart along⟩

/-- A solution is found, the coordinator resets the counter, and the worker goes back to the task. -/
def resumedActions : List WorkerPool.Action :=
  .broadcastTask sampleTask :: List.replicate 5 (.advance 0 true) ++
    .resetHashCount 0 :: List.replicate 4 (.advance 0 true)

theorem resumedActions_twice : ¬ Always (Crew.step boxCodec) Once (.start [0]) resumedActions := by
  intro always
  have once := always _ ⟨resumedActions, List.prefix_rfl, rfl⟩ 0 _ rfl sampleTask (by decide)
  exact absurd once (by decide)

end Samples
end ErgoNode.Proof.Mining
