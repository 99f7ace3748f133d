import PeachOS.Task
import PeachOS.HeapRoom
import PeachOS.PagingRelease
import PeachOS.Lib.LinkedList
import PeachOS.Lib.Run

/-! The task list over any sequence of `task_new` and `task_free`. -/

namespace PeachOS
open Program ByteMemory BlockPool LinkedList Transition

def Kernel.nextTask (kernel : Kernel) (task : Addr) : Addr := (kernel.tasks task).next

def Kernel.prevTask (kernel : Kernel) (task : Addr) : Addr := (kernel.tasks task).prev

/-- `task_head`, `task_tail`, `current_task` and the links are those of `live`. -/
structure TaskList (kernel : Kernel) (live : List Addr) : Prop where
  distinct : live.Nodup
  nonnull : ∀ task ∈ live, task ≠ 0
  head : kernel.taskHead = live.headD 0
  tail : kernel.taskTail = live.getLastD 0
  links : Segment kernel.nextTask kernel.prevTask 0 live 0
  current : live ≠ [] → kernel.currentTask ∈ live

def Kernel.removed (kernel : Kernel) (task : Addr) : Kernel :=
  let unlinked := if kernel.prevTask task = 0 then kernel
    else kernel.setTask (kernel.prevTask task) ({ · with next := kernel.nextTask task })
  let head := if task = kernel.taskHead then kernel.nextTask task else kernel.taskHead
  { unlinked with
    taskHead := head
    taskTail := if task = kernel.taskTail then kernel.prevTask task else kernel.taskTail
    currentTask := if task = kernel.currentTask then
        (if kernel.nextTask task = 0 then head else kernel.nextTask task)
      else kernel.currentTask }

section Links
variable {kernel : Kernel} {task : Addr}

theorem Kernel.setTask_self {change : Task → Task} {ptr : Addr} (other : task ≠ ptr) :
    (kernel.setTask ptr change).tasks task = kernel.tasks task := by
  rw [Kernel.setTask_tasks, if_neg other]

theorem taskGetNext_run {current : Addr} (same : kernel.currentTask = current)
    (nonnull : current ≠ 0) : taskGetNext kernel = (.ok (if kernel.nextTask current = 0 then
      kernel.taskHead else kernel.nextTask current), kernel) := by
  unfold taskGetNext
  rw [read_bind, same, if_neg nonnull, read_bind]
  unfold Kernel.nextTask
  split <;> rfl

theorem taskListRemove_rest (unlinked : Kernel) (nonnull : task ≠ 0) :
    (do
      update (fun kernel => { kernel with
        taskHead := if task = kernel.taskHead then (kernel.tasks task).next else kernel.taskHead })
      update (fun kernel => { kernel with
        taskTail := if task = kernel.taskTail then (kernel.tasks task).prev else kernel.taskTail })
      let current ← read Kernel.currentTask
      if task = current then
        let next ← taskGetNext
        update (fun kernel => { kernel with currentTask := next })
      else pure () : KernelProg Unit) unlinked =
    (.ok (), { unlinked with
      taskHead := if task = unlinked.taskHead then unlinked.nextTask task else unlinked.taskHead
      taskTail := if task = unlinked.taskTail then unlinked.prevTask task else unlinked.taskTail
      currentTask := if task = unlinked.currentTask then
          (if unlinked.nextTask task = 0 then
            (if task = unlinked.taskHead then unlinked.nextTask task else unlinked.taskHead)
          else unlinked.nextTask task)
        else unlinked.currentTask }) := by
  simp only [update_bind, read_bind]
  by_cases isCurrent : task = unlinked.currentTask
  · rw [if_pos isCurrent, if_pos isCurrent]
    refine (bind_ok (taskGetNext_run ?_ nonnull)).trans rfl
    exact isCurrent.symm
  · rw [if_neg isCurrent, if_neg isCurrent]
    rfl

theorem taskListRemove_run (nonnull : task ≠ 0) (proper : kernel.prevTask task ≠ task) :
    taskListRemove task kernel = (.ok (), kernel.removed task) := by
  have unlinked : ∀ change, (kernel.setTask (kernel.tasks task).prev change).tasks task =
      kernel.tasks task := fun change => Kernel.setTask_self (Ne.symm proper)
  unfold taskListRemove
  simp only [read_bind]
  rw [updateWhen_bind, taskListRemove_rest _ nonnull]
  by_cases first : (kernel.tasks task).prev = 0
  · simp only [first, ne_eq, not_true_eq_false, if_false, Kernel.removed, Kernel.prevTask, if_true]
  · simp only [first, ne_eq, not_false_eq_true, if_true, Kernel.removed, Kernel.prevTask,
      Kernel.nextTask, unlinked, if_false]
    rfl

@[simp] theorem Kernel.removed_memory (kernel : Kernel) (task : Addr) :
    (kernel.removed task).memory = kernel.memory := by
  unfold Kernel.removed
  dsimp only
  split <;> rfl

@[simp] theorem Kernel.removed_prev (kernel : Kernel) (task other : Addr) :
    (kernel.removed task).prevTask other = kernel.prevTask other := by
  unfold Kernel.removed Kernel.prevTask
  dsimp only
  split
  · rfl
  · rw [Kernel.setTask_tasks]
    split
    next same => rw [same]
    · rfl

theorem Kernel.removed_next (kernel : Kernel) (task other : Addr) :
    (kernel.removed task).nextTask other =
      if kernel.prevTask task ≠ 0 ∧ other = kernel.prevTask task then kernel.nextTask task
      else kernel.nextTask other := by
  unfold Kernel.removed Kernel.nextTask
  dsimp only
  by_cases first : kernel.prevTask task = 0
  · rw [if_pos first, if_neg (fun both => both.1 first)]
  · rw [if_neg first, Kernel.setTask_tasks]
    by_cases same : other = kernel.prevTask task
    · rw [if_pos same, if_pos ⟨first, same⟩]
    · rw [if_neg same, if_neg (fun both => same both.2)]

@[simp] theorem Kernel.removed_pageDirectory (kernel : Kernel) (task other : Addr) :
    ((kernel.removed task).tasks other).pageDirectory = (kernel.tasks other).pageDirectory := by
  unfold Kernel.removed
  dsimp only
  split
  · rfl
  · rw [Kernel.setTask_tasks]
    split
    next same => rw [same]
    · rfl

theorem getLastD_mem {front : List Addr} (nonempty : front.getLastD 0 ≠ 0) :
    front.getLast? = some (front.getLastD 0) := by
  rcases List.eq_nil_or_concat front with rfl | ⟨init, last, rfl⟩
  · exact absurd rfl nonempty
  · simp

theorem TaskList.around {front back : List Addr} (list : TaskList kernel (front ++ task :: back)) :
    Segment kernel.nextTask kernel.prevTask 0 front task ∧
      kernel.prevTask task = front.getLastD 0 ∧ kernel.nextTask task = back.headD 0 ∧
      Segment kernel.nextTask kernel.prevTask task back 0 := by
  have links := list.links
  rw [Segment.append, Segment] at links
  exact ⟨links.1, links.2.1, links.2.2.1, links.2.2.2⟩

theorem TaskList.proper {front back : List Addr} (list : TaskList kernel (front ++ task :: back)) :
    task ≠ 0 ∧ kernel.prevTask task ≠ task := by
  have nonnull := list.nonnull task (by simp)
  refine ⟨nonnull, fun same => ?_⟩
  rw [list.around.2.1] at same
  have last := getLastD_mem (same ▸ nonnull)
  have member := List.mem_of_getLast? last
  rw [same] at member
  exact (List.nodup_append.mp list.distinct).2.2 task member task List.mem_cons_self rfl

theorem TaskList.removed_front {front back : List Addr}
    (list : TaskList kernel (front ++ task :: back)) :
    Segment (kernel.removed task).nextTask (kernel.removed task).prevTask 0 front (back.headD 0) := by
  obtain ⟨segment, prev, next, _⟩ := list.around
  have distinct := (List.nodup_append.mp list.distinct).1
  have nonnull : ∀ node ∈ front, node ≠ 0 :=
    fun node member => list.nonnull node (List.mem_append_left _ member)
  apply segment.retarget distinct
  · exact fun node _ => Kernel.removed_prev kernel task node
  · intro last isLast
    have same : front.getLastD 0 = last := by
      rw [List.getLastD_eq_getLast?, isLast, Option.getD_some]
    rw [Kernel.removed_next, prev, same, if_pos ⟨nonnull last (List.mem_of_getLast? isLast), rfl⟩, next]
  · intro node member notLast
    rw [Kernel.removed_next, if_neg]
    rintro ⟨nonempty, same⟩
    rw [prev] at nonempty same
    exact notLast (same ▸ getLastD_mem nonempty)

theorem TaskList.remove_tail {front : List Addr} (list : TaskList kernel (front ++ [task])) :
    TaskList (kernel.removed task) front := by
  obtain ⟨_, prev, next, _⟩ := list.around
  have apart := List.nodup_append.mp list.distinct
  have fresh : ∀ node ∈ front, node ≠ task :=
    fun node member same => apart.2.2 node member task (List.mem_singleton_self task) same
  have tail : kernel.taskTail = task := by
    rw [list.tail]
    simp
  have headIs : (kernel.removed task).taskHead = front.headD 0 := by
    show (if task = kernel.taskHead then kernel.nextTask task else kernel.taskHead) = _
    rw [list.head]
    cases front with
    | nil => simpa using next
    | cons node rest =>
      rw [List.cons_append, List.headD_cons, if_neg (fresh node List.mem_cons_self).symm]
      rfl
  refine ⟨apart.1, fun node member => list.nonnull node (List.mem_append_left _ member), headIs, ?_,
    list.removed_front, fun nonempty => ?_⟩
  · show (if task = kernel.taskTail then kernel.prevTask task else kernel.taskTail) = _
    rw [if_pos tail.symm, prev]
  · have headIn : front.headD 0 ∈ front := by
      cases front with
      | nil => exact absurd rfl nonempty
      | cons node rest => exact List.mem_cons_self
    show (if task = kernel.currentTask then
        (if kernel.nextTask task = 0 then (kernel.removed task).taskHead else kernel.nextTask task)
      else kernel.currentTask) ∈ front
    have current := list.current (by simp)
    by_cases isCurrent : task = kernel.currentTask
    · rw [if_pos isCurrent, if_pos (show kernel.nextTask task = 0 from next), headIs]
      exact headIn
    · rw [if_neg isCurrent]
      rcases List.mem_append.mp current with member | last
      · exact member
      · exact absurd (List.mem_singleton.mp last).symm isCurrent

/-- Removing any other task leaves its successor linked back to it. -/
theorem TaskList.remove_iff (front : List Addr) {back : List Addr}
    (list : TaskList kernel (front ++ task :: back)) :
    TaskList (kernel.removed task) (front ++ back) ↔ back = [] := by
  constructor
  · intro after
    cases back with
    | nil => rfl
    | cons successor rest =>
      have before := list.around
      have back := after.around.2.1
      rw [Kernel.removed_prev, before.2.2.2.1] at back
      have last := getLastD_mem (back ▸ (list.nonnull task (by simp)))
      rw [← back] at last
      have member := List.mem_of_getLast? last
      exact absurd rfl ((List.nodup_append.mp list.distinct).2.2 task member task List.mem_cons_self)
  · rintro rfl
    rw [List.append_nil]
    exact list.remove_tail

theorem TaskList.append {live : List Addr} (list : TaskList kernel live) (fresh : task ∉ live)
    (nonnull : task ≠ 0) (next : kernel.nextTask task = 0) (prev : kernel.prevTask task = 0) :
    ∃ after, taskListAppend task kernel = (.ok (), after) ∧ TaskList after (live ++ [task]) ∧
      after.memory = kernel.memory ∧
      ∀ other, (after.tasks other).pageDirectory = (kernel.tasks other).pageDirectory := by
  have distinct : (live ++ [task]).Nodup := by
    rw [List.nodup_append]
    refine ⟨list.distinct, List.nodup_singleton task, ?_⟩
    rintro node member other last rfl
    exact fresh (List.mem_singleton.mp last ▸ member)
  have nonnulls : ∀ node ∈ live ++ [task], node ≠ 0 := by
    intro node member
    rcases List.mem_append.mp member with old | last
    · exact list.nonnull node old
    · exact List.mem_singleton.mp last ▸ nonnull
  rcases List.eq_nil_or_concat live with rfl | ⟨front, last, rfl⟩
  · have empty : kernel.taskHead = 0 := list.head
    refine ⟨{ kernel with taskHead := task, taskTail := task, currentTask := task }, ?_,
      ⟨distinct, nonnulls, rfl, rfl, ⟨prev, next, trivial⟩, fun _ => List.mem_singleton_self task⟩,
      rfl, fun _ => rfl⟩
    unfold taskListAppend
    rw [read_bind, id_eq, if_pos empty]
    rfl
  · rw [List.concat_eq_append] at *
    have lastIn : last ∈ front ++ [last] := by simp
    have different : task ≠ last := fun same => fresh (same ▸ lastIn)
    have head : kernel.taskHead ≠ 0 := by
      rw [list.head]
      cases front with
      | nil => exact list.nonnull last lastIn
      | cons node rest => exact list.nonnull node (by simp)
    have tail : kernel.taskTail = last := by
      rw [list.tail]
      simp
    let linked := (kernel.setTask last ({ · with next := task })).setTask task ({ · with prev := last })
    have nextIs : ∀ node, ({ linked with taskTail := task } : Kernel).nextTask node =
        if node = last then task else kernel.nextTask node := by
      intro node
      show (linked.tasks node).next = _
      simp only [linked, Kernel.setTask_tasks, Kernel.nextTask]
      by_cases isTask : node = task
      · subst isTask
        rw [if_pos rfl, if_neg different, if_neg different]
      · rw [if_neg isTask]
        split <;> rfl
    have prevIs : ∀ node, ({ linked with taskTail := task } : Kernel).prevTask node =
        if node = task then last else kernel.prevTask node := by
      intro node
      show (linked.tasks node).prev = _
      simp only [linked, Kernel.setTask_tasks, Kernel.prevTask]
      by_cases isTask : node = task
      · rw [if_pos isTask, if_pos isTask]
      · rw [if_neg isTask, if_neg isTask]
        split
        next same => rw [same]
        · rfl
    refine ⟨{ linked with taskTail := task }, ?_, ⟨distinct, nonnulls, ?_, by simp, ?_, ?_⟩, rfl, ?_⟩
    · unfold taskListAppend
      rw [read_bind, id_eq, if_neg head, update_bind, tail, update_bind, update_run]
      simp only [linked, Kernel.setTask, tail]
    · show kernel.taskHead = _
      rw [list.head]
      cases front <;> rfl
    · rw [Segment.append]
      refine ⟨list.links.retarget list.distinct ?_ ?_ ?_, ?_, ?_, trivial⟩
      · intro node member
        rw [prevIs, if_neg]
        rintro rfl
        exact fresh member
      · intro node isLast
        rw [nextIs, if_pos (by simpa using isLast.symm)]
        rfl
      · intro node _ notLast
        rw [nextIs, if_neg]
        rintro rfl
        exact notLast (by simp)
      · rw [prevIs, if_pos rfl]
        simp
      · rw [nextIs, if_neg different]
        exact next
    · intro _
      exact List.mem_append_left _ (list.current (by simp))
    · intro other
      simp only [linked, Kernel.setTask_tasks]
      by_cases isTask : other = task
      · subst isTask
        rw [if_pos rfl, if_neg different]
      · rw [if_neg isTask]
        split
        next same => rw [same]
        · rfl

end Links

end PeachOS
