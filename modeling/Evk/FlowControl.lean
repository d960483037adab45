import Evk.WriteInterest

/-! Flow-control notices. A connection queues the write-complete callback when a write
leaves nothing it accepted unwritten, and the high-water callback when its output grows
across the mark; `Noted` says so of one call, whatever the callbacks are set to. -/
namespace Evk.Link

def outputSize (x : Link) : Nat := x.conn.outputBuffer.readable.length

/-- The notices of one call, from what the output was before and is after it. -/
structure Noted (x : Link) (method : Method) (y : Link) (effects : List Effect) : Prop where
  complete : .queueWriteComplete ∈ effects ↔ x.conn.writeCompleteCb = true ∧
    (∃ data n, method.writes x = some (data,.wrote n)) ∧ y.conn.outputBuffer.readable = []
  highWater : ∀ size, .queueHighWaterMark size ∈ effects ↔ x.conn.highWaterMarkCb = true ∧
    x.outputSize < x.conn.highWaterMark ∧ x.conn.highWaterMark ≤ y.outputSize ∧ size = y.outputSize
  once : (effects.filter Effect.isNote).Nodup

variable {ptr : ConnId} {x y : Link} {method : Method}

theorem mem_notes {effect : Effect} {effects : List Effect} (note : effect.isNote = true) :
    effect ∈ effects.filter Effect.isNote ↔ effect ∈ effects := by
  simp [note]

theorem Aside.noted (aside : Aside x y effects) (none : method.writes x = none) : Noted x method y effects := by
  have same : y.outputSize = x.outputSize := by rw [outputSize,aside.output]; rfl
  refine ⟨?_,fun size => ?_,by simp [aside.quiet]⟩
  · rw [← mem_notes rfl,aside.quiet]
    simp [none]
  · rw [← mem_notes rfl,aside.quiet,same]
    simp only [List.not_mem_nil,false_iff]
    omega

/-- The test of `SendInLoop` on the sizes before and after the append. -/
theorem mem_highWater (effect : Effect) (conn : TcpConnection) (grows : before ≤ after) (word : after < 2^64) :
    effect ∈ Link.highWater conn before (after - before) ↔ conn.highWaterMarkCb = true ∧
      before < conn.highWaterMark ∧ conn.highWaterMark ≤ after ∧ effect = .queueHighWaterMark after := by
  have sum : sizeAdd before (after - before) = after := by rw [sizeAdd_of_lt (by omega)]; omega
  rw [Link.highWater,sum]
  split
  · rename_i crossed
    simp [crossed.1,crossed.2.1,crossed.2.2]
  · rename_i stays
    simp only [List.not_mem_nil,false_iff]
    rintro ⟨set,below,above,-⟩
    exact stays ⟨above,below,set⟩

theorem Method.sendInLoop_writes (called : (Method.sendInLoop alloc message r).writes x = some (data,r')) :
    x.conn.status ≠ .kDisconnected ∧ x.conn.writesDirectly = true ∧ data = message.bytes ∧ r' = r := by
  simp only [Method.writes] at called
  split at called
  · rename_i direct
    cases called
    exact ⟨direct.1,direct.2,rfl,rfl⟩
  · simp at called

theorem Method.handleWrite_writes (called : (Method.handleWrite r).writes x = some (data,r')) :
    x.conn.channel.isWriting = true ∧ data = x.conn.outputBuffer.readable ∧ r' = r := by
  simp only [Method.writes] at called
  split at called
  · rename_i writing
    cases called
    exact ⟨writing,rfl,rfl⟩
  · simp at called

theorem Kept.left_behind (kept : x.Kept ptr) (legal : (WriteResult.wrote n).Legal message.bytes.length)
    (called : (Method.sendInLoop alloc message (.wrote n)).writes x = some (message.bytes,.wrote n))
    (done : x.sendInLoop ptr alloc message (.wrote n) = .ok (y,effects)) :
    y.conn.outputBuffer.readable = message.bytes.drop n := by
  obtain ⟨up,direct,-,-⟩ := Method.sendInLoop_writes called
  have empty : x.conn.outputBuffer.readable = [] := List.length_eq_zero_iff.mp ((writesDirectly_iff).mpr direct).2
  have sent := (sendInLoop_returned kept.ready legal done).1
  rw [called,taken] at sent
  rcases sendInLoop_spec kept.ready up alloc message (.wrote n) (fun _ => legal) with
    ⟨-,refused⟩ | ⟨z,effects',done',-,whole,-⟩
  · cases refused.symm.trans done
  · cases done'.symm.trans done
    have whole : x.conn.sent ++ (message.bytes.take n ++ y.conn.outputBuffer.readable) =
        x.conn.sent ++ message.bytes := by
      simpa [stream,sent,empty,Dropped] using whole
    have both : message.bytes.take n ++ y.conn.outputBuffer.readable =
        message.bytes.take n ++ message.bytes.drop n := by
      rw [List.take_append_drop]
      exact List.append_cancel_left whole
    exact List.append_cancel_left both

theorem Kept.sendInLoop_noted (kept : x.Kept ptr) (legal : r.Legal message.bytes.length)
    (done : x.sendInLoop ptr alloc message r = .ok (y,effects)) :
    Noted x (.sendInLoop alloc message r) y effects := by
  obtain ⟨-,grows,notes⟩ := sendInLoop_returned kept.ready legal done
  have word : y.outputSize < 2^64 := Nat.lt_trans (kept.sendInLoop legal _ done).ready.size_lt (by decide)
  have water (effect : Effect) := mem_highWater effect x.conn grows word
  have whole : (Method.sendInLoop alloc message r).writes x = some (message.bytes,.wrote message.bytes.length) ↔
      (∃ data n, (Method.sendInLoop alloc message r).writes x = some (data,.wrote n)) ∧
        y.conn.outputBuffer.readable = [] := by
    constructor
    · intro called
      obtain ⟨-,-,-,rfl⟩ := Method.sendInLoop_writes called
      refine ⟨⟨_,_,called⟩,?_⟩
      rw [kept.left_behind legal called done,List.drop_length]
    · rintro ⟨⟨data,n,called⟩,drained⟩
      obtain ⟨-,-,rfl,rfl⟩ := Method.sendInLoop_writes called
      have short : n ≤ message.bytes.length := legal
      rw [kept.left_behind legal called done,List.drop_eq_nil_iff] at drained
      rw [called,Nat.le_antisymm short drained]
  have among (effect : Effect) : effect ∈ effects ↔
      (((Method.sendInLoop alloc message r).writes x = some (message.bytes,.wrote message.bytes.length) ∧
          x.conn.writeCompleteCb = true) ∧ effect = .queueWriteComplete) ∨
        (x.conn.highWaterMarkCb = true ∧ x.outputSize < x.conn.highWaterMark ∧
          x.conn.highWaterMark ≤ y.outputSize ∧ effect = .queueHighWaterMark y.outputSize) := by
    rw [notes,List.mem_append,water,List.mem_ite_nil_right,List.mem_singleton]
    rfl
  refine ⟨?_,fun size => ?_,?_⟩
  · rw [among,whole]
    simp [and_comm]
  · simp [among]
  · rw [notes,Link.highWater]
    split <;> split <;> simp [List.filter,Effect.isNote]

theorem Kept.handleWrite_noted (kept : x.Kept ptr) (done : x.handleWrite ptr r = .ok (y,effects)) :
    Noted x (.handleWrite r) y effects := by
  obtain ⟨sent,shrinks,notes⟩ := handleWrite_returned kept.ready kept.pending done
  have whole : (x.conn.channel.isWriting = true ∧ y.conn.outputBuffer.readable = []) ↔
      (∃ data n, (Method.handleWrite r).writes x = some (data,.wrote n)) ∧ y.conn.outputBuffer.readable = [] := by
    constructor
    · rintro ⟨writing,drained⟩
      refine ⟨?_,drained⟩
      cases r with
      | wrote n => exact ⟨x.conn.outputBuffer.readable,n,by simp [Method.writes,writing]⟩
      | failed e =>
        have data := Buffer.toSlice_eq kept.ready.output.valid
        simp only [Link.handleWrite,writing,if_true,data,ok_bind,pure_eq_ok,Except.ok.injEq] at done
        cases done
        exact absurd drained (kept.pending writing)
    · rintro ⟨⟨data,n,called⟩,drained⟩
      exact ⟨(Method.handleWrite_writes called).1,drained⟩
  refine ⟨?_,fun size => ?_,?_⟩
  · rw [← mem_notes rfl,notes,List.mem_ite_nil_right,← whole,List.mem_singleton]
    tauto
  · rw [← mem_notes rfl,notes,List.mem_ite_nil_right]
    simp only [List.mem_singleton,reduceCtorEq,and_false,false_iff]
    rintro ⟨-,below,above,-⟩
    exact absurd (Nat.le_trans above shrinks) (Nat.not_le_of_lt below)
  · rw [notes]
    split <;> simp

theorem Kept.noted (kept : x.Kept ptr) (legal : method.Legal x) (done : method.run ptr x = .ok (y,effects)) :
    Noted x method y effects := by
  cases other : method.isOutput with
  | false => exact (Method.run_aside other done).noted (Method.writes_none other)
  | true =>
    cases method with
    | sendInLoop alloc message r => exact kept.sendInLoop_noted legal done
    | handleWrite r => exact kept.handleWrite_noted done
    | _ => simp [Method.isOutput] at other

theorem Kept.drained_iff (kept : x.Kept ptr) :
    x.conn.outputBuffer.readable = [] ↔ x.conn.sent = x.conn.accepted.flatMap Message.bytes := by
  rw [← kept.whole,stream]
  simp

/-- In every step of every run the two notices are exact. The write-complete callback is
queued for a successful write after which the kernel has all that was accepted; the
high-water callback for a step in which the output grows across the mark, with its new
size. Before the next one the output has been below the mark again. -/
theorem flow_control_exact (reachable : (machine ptr).Reachable x) (complete : x.conn.writeCompleteCb = true)
    (highWater : x.conn.highWaterMarkCb = true) (legal : method.Legal x)
    (done : method.run ptr x = .ok (y,effects)) :
    (.queueWriteComplete ∈ effects ↔ (∃ data n, method.writes x = some (data,.wrote n)) ∧
      y.conn.sent = y.conn.accepted.flatMap Message.bytes) ∧
    (∀ size, .queueHighWaterMark size ∈ effects ↔ x.outputSize < x.conn.highWaterMark ∧
      x.conn.highWaterMark ≤ y.outputSize ∧ size = y.outputSize) ∧
    (effects.filter Effect.isNote).Nodup ∧
    (∀ size, .queueHighWaterMark size ∈ effects → ∀ z, (machine ptr).Path y z →
      z.conn.highWaterMark = x.conn.highWaterMark → ∀ (next : Method) w effects' size', next.Legal z →
      next.run ptr z = .ok (w,effects') → .queueHighWaterMark size' ∈ effects' →
      z.outputSize < x.conn.highWaterMark) := by
  have kept := reachable_kept reachable
  have noted := kept.noted legal done
  have drained := (kept.run method legal _ done).drained_iff
  refine ⟨?_,fun size => ?_,noted.once,?_⟩
  · rw [noted.complete,drained]
    simp [complete]
  · rw [noted.highWater]
    simp [highWater]
  · intro size _ z path same next w effects' size' legal' done' queued
    have stepped : (machine ptr).step x method = .ok y := by simp [machine,done]
    have later : z.Kept ptr := reachable_kept ((reachable.step legal stepped).path path)
    have crossed := ((later.noted legal' done').highWater size').mp queued
    rw [← same]
    exact crossed.2.1

/-- A message longer than the mark, of which the kernel takes a part. -/
theorem flow_control_exact_crossing :
    ∃ x y effects, (machine 0).Reachable x ∧
      (Method.sendInLoop (Allocator.zeroed 4096 (by decide)) ⟨0,[1,2,3],by decide⟩ (.wrote 1)).run 0 x =
        .ok (y,effects) ∧ .queueHighWaterMark 2 ∈ effects ∧ .queueWriteComplete ∉ effects := by
  let alloc := Allocator.zeroed 4096 (by decide)
  let schedule : List Method := [.onConnectEstablished,.setWriteCompleteCallback true,.setHighWaterMarkCallback true 2]
  let buffer : Buffer := ⟨List.replicate 1032 0,1032,8,8,8⟩
  let start : Link := ⟨TcpConnection.construct 0 5 buffer buffer false,.empty⟩
  let x := schedule.foldl (machine 0).advance start
  let send : Method := .sendInLoop alloc ⟨0,[1,2,3],by decide⟩ (.wrote 1)
  have built : Buffer.construct alloc Buffer.kInitialSize Buffer.kCheapPrependSize = .ok buffer := by decide +kernel
  have reachable : (machine 0).Reachable x :=
    Machine.Reachable.follow (m := machine 0) (.initial ⟨alloc,alloc,0,5,buffer,buffer,false,built,built,rfl⟩) schedule
      (by decide +kernel)
  have set : x.conn.writeCompleteCb = true ∧ x.conn.highWaterMarkCb = true ∧ x.conn.highWaterMark = 2 ∧
      x.outputSize = 0 := by decide +kernel
  have after : (send.run 0 x).map (fun result => (result.1.outputSize,result.1.conn.sent,
      result.1.conn.accepted.flatMap Message.bytes)) = .ok (2,[1],[1,2,3]) := by decide +kernel
  obtain ⟨complete,highWater,mark,empty⟩ := set
  cases done : send.run 0 x with
  | error e => simp [done,Except.map] at after
  | ok result =>
    obtain ⟨y,effects⟩ := result
    obtain ⟨size,sent,accepted⟩ : y.outputSize = 2 ∧ y.conn.sent = [1] ∧
        y.conn.accepted.flatMap Message.bytes = [1,2,3] := by simpa [done,Except.map] using after
    have legal : send.Legal x := by decide +kernel
    obtain ⟨completes,crosses,-,-⟩ := flow_control_exact reachable complete highWater legal done
    refine ⟨x,y,effects,reachable,done,(crosses 2).mpr ?_,fun queued => ?_⟩
    · rw [empty,mark,size]
      decide
    · simpa [sent,accepted] using (completes.mp queued).2

end Evk.Link
