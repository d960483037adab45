import Evk.ServerHomes

/-! The names of connections and the map they key. `HandleNewConnection` formats the
next number into a buffer of 64 bytes, `RemoveConnectionInLoop` erases by name; elsewhere
the map is a list of numbers, which the last part of this module accounts for. -/
namespace Evk

/-- What a C function sees of a string. -/
def cString (text : List Char) : List Char := text.takeWhile (· ≠ Char.ofNat 0)

/-- `%d`. -/
def decimal (n : Int) : List Char :=
  if n < 0 then '-' :: Nat.toDigits 10 n.natAbs else Nat.toDigits 10 n.natAbs

/-- The text that `snprintf` leaves in a buffer. -/
def snprintf (size : Nat) (formatted : List Char) : List Char := formatted.take (size - 1)

theorem decimal_natCast (n : Nat) : decimal n = Nat.toDigits 10 n := by
  have positive : ¬(n : Int) < 0 := by omega
  rw [decimal,if_neg positive,Int.natAbs_natCast]

theorem decimal_inj {m n : Nat} (same : decimal m = decimal n) : m = n := by
  rw [decimal_natCast,decimal_natCast] at same
  have value := congrArg (fun text => Nat.ofDigitChars 10 text 0) same
  simpa using value

theorem length_decimal {n : Nat} (small : n < 2^31) : (decimal n).length ≤ 10 := by
  rw [decimal_natCast]
  exact Nat.toDigits_length 10 n 10 (by decide) (small.trans (by decide))

theorem decimal_plain {n : Nat} (member : x ∈ decimal n) : x ≠ Char.ofNat 0 := by
  rintro rfl
  rw [decimal_natCast] at member
  exact absurd (Nat.isDigit_of_mem_toDigits (by decide) (by decide) member) (by decide)

theorem cString_of {text : List Char} (plain : ∀ x ∈ text, x ≠ Char.ofNat 0) : cString text = text := by
  simpa [cString,List.takeWhile_eq_self_iff] using plain

theorem cString_plain {text : List Char} (member : x ∈ cString text) : x ≠ Char.ofNat 0 := by
  simpa using List.mem_takeWhile_imp member

theorem length_cString (text : List Char) : (cString text).length ≤ text.length :=
  (List.takeWhile_sublist _).length_le

structure ConnectionTable where
  /-- `name_` and `ip_port_`. -/
  name : List Char
  ipPort : List Char
  nextConnId : Int
  connections : List Char → Option ConnId
  /-- History: the connections made, each with its `Name()`, and those removed. -/
  accepted : List (ConnId × List Char)
  removed : List ConnId

namespace ConnectionTable

def construct (name ipPort : List Char) : ConnectionTable := ⟨name,ipPort,1,fun _ => none,[],[]⟩

def nameOf (s : ConnectionTable) (id : Int) : List Char :=
  s.name ++ cString (snprintf 64 ('-' :: cString s.ipPort ++ '#' :: decimal id))

def handleNewConnection (s : ConnectionTable) : Except Fault ConnectionTable := do
  let connName := s.nameOf s.nextConnId
  check (s.nextConnId + 1 < 2^31) .overflow
  let conn := s.accepted.length + 1
  return { s with
    nextConnId := s.nextConnId + 1
    connections := Function.update s.connections connName (some conn)
    accepted := s.accepted ++ [(conn,connName)] }

def count (name : List Char) (s : ConnectionTable) : Nat := if (s.connections name).isSome then 1 else 0

def removeConnectionInLoop (conn : ConnId × List Char) (s : ConnectionTable) : Except Fault ConnectionTable := do
  let n := s.count conn.2
  let connections := Function.update s.connections conn.2 none
  assert (n = 1) .removeConnectionInLoop
  return { s with connections, removed := s.removed ++ [conn.1] }

inductive Action where
  | accept
  | remove (conn : ConnId × List Char)

def step (s : ConnectionTable) : Action → Except Fault ConnectionTable
  | .accept => s.handleNewConnection
  | .remove conn => s.removeConnectionInLoop conn

def enabled (s : ConnectionTable) : Action → Prop
  | .accept => True
  | .remove conn => conn ∈ s.accepted ∧ conn.1 ∉ s.removed

/-- A server with any name; the text of an address and port has at most 51 characters. -/
def machine : Machine ConnectionTable Action Fault where
  initial s := ∃ name ipPort, ipPort.length ≤ 51 ∧ s = construct name ipPort
  enabled := enabled
  step := step

instance (s : ConnectionTable) : (act : Action) → Decidable (machine.enabled s act)
  | .accept => inferInstanceAs (Decidable True)
  | .remove _ => inferInstanceAs (Decidable (_ ∧ _))

variable {s s' : ConnectionTable}

/-- With an address of 51 characters and a number of ten digits the buffer is full, and
nothing is cut off. -/
theorem nameOf_eq {n : Nat} (short : s.ipPort.length ≤ 51) (small : n < 2^31) :
    s.nameOf n = s.name ++ ('-' :: cString s.ipPort ++ '#' :: decimal n) := by
  have digits := length_decimal small
  have address := length_cString s.ipPort
  have fits : snprintf 64 ('-' :: cString s.ipPort ++ '#' :: decimal n) =
      '-' :: cString s.ipPort ++ '#' :: decimal n := by
    refine List.take_of_length_le ?_
    simp only [List.length_append,List.length_cons]
    omega
  rw [nameOf,fits,cString_of]
  intro x member
  rcases List.mem_append.mp member with front | back
  · rcases List.mem_cons.mp front with rfl | inside
    · decide
    · exact cString_plain inside
  · rcases List.mem_cons.mp back with rfl | inside
    · decide
    · exact decimal_plain inside

theorem nameOf_inj {m n : Nat} (short : s.ipPort.length ≤ 51) (small : m < 2^31) (small' : n < 2^31)
    (same : s.nameOf m = s.nameOf n) : m = n := by
  rw [nameOf_eq short small,nameOf_eq short small'] at same
  have tails := List.append_cancel_left (List.append_cancel_left same)
  exact decimal_inj (List.cons.inj tails).2

def entry (s : ConnectionTable) (k : Nat) : ConnId × List Char := (k + 1,s.nameOf (k + 1 : Nat))

structure Inv (s : ConnectionTable) : Prop where
  short : s.ipPort.length ≤ 51
  few : s.accepted.length < 2^31 - 1
  counted : s.nextConnId = (s.accepted.length + 1 : Nat)
  listed : s.accepted = (List.range s.accepted.length).map s.entry
  table : ∀ text c, s.connections text = some c ↔ (c,text) ∈ s.accepted ∧ c ∉ s.removed
  old : ∀ k, s.accepted.length ≤ k → k + 1 ∉ s.removed

theorem inv_construct {text address : List Char} (short : address.length ≤ 51) : (construct text address).Inv where
  short := short
  few := by simp [construct]
  counted := rfl
  listed := rfl
  table text c := by simp [construct]
  old k _ := by simp [construct]

theorem Inv.made (inv : s.Inv) {text : List Char} (member : (c,text) ∈ s.accepted) :
    ∃ k < s.accepted.length, k + 1 = c ∧ s.nameOf (k + 1 : Nat) = text := by
  rw [inv.listed] at member
  obtain ⟨k,bound,eq⟩ := List.mem_map.mp member
  exact ⟨k,List.mem_range.mp bound,Prod.mk.inj eq⟩

theorem Inv.number_eq (inv : s.Inv) (bound : j ≤ s.accepted.length) (bound' : k ≤ s.accepted.length)
    (same : s.nameOf (j + 1 : Nat) = s.nameOf (k + 1 : Nat)) : j = k := by
  have few := inv.few
  have next : j + 1 = k + 1 := nameOf_inj inv.short (by omega) (by omega) same
  omega

theorem Inv.same (inv : s.Inv) {text : List Char} (first : (c,text) ∈ s.accepted)
    (second : (d,text) ∈ s.accepted) : c = d := by
  obtain ⟨j,bound,rfl,eq⟩ := inv.made first
  obtain ⟨k,bound',rfl,eq'⟩ := inv.made second
  rw [inv.number_eq bound.le bound'.le (eq.trans eq'.symm)]

theorem Inv.name_eq (inv : s.Inv) {text other : List Char} (first : (c,text) ∈ s.accepted)
    (second : (c,other) ∈ s.accepted) :
    text = other := by
  obtain ⟨j,-,rfl,rfl⟩ := inv.made first
  obtain ⟨k,-,number,rfl⟩ := inv.made second
  rw [Nat.succ.inj number]

theorem Inv.fresh (inv : s.Inv) : (c,s.nameOf s.nextConnId) ∉ s.accepted := by
  intro member
  rw [inv.counted] at member
  obtain ⟨k,bound,-,eq⟩ := inv.made member
  exact bound.ne (inv.number_eq bound.le le_rfl eq)

theorem Inv.names_nodup (inv : s.Inv) : (s.accepted.map Prod.snd).Nodup := by
  rw [inv.listed,List.map_map]
  refine List.Nodup.map_on (fun j bound k bound' same => ?_) List.nodup_range
  exact inv.number_eq (List.mem_range.mp bound).le (List.mem_range.mp bound').le same

def inserted (s : ConnectionTable) : ConnectionTable :=
  { s with
    nextConnId := s.nextConnId + 1
    connections := Function.update s.connections (s.nameOf s.nextConnId) (some (s.accepted.length + 1))
    accepted := s.accepted ++ [(s.accepted.length + 1,s.nameOf s.nextConnId)] }

def erased (conn : ConnId × List Char) (s : ConnectionTable) : ConnectionTable :=
  { s with connections := Function.update s.connections conn.2 none, removed := s.removed ++ [conn.1] }

theorem handleNewConnection_eq (room : s.nextConnId + 1 < 2^31) : s.handleNewConnection = .ok s.inserted := by
  simp only [handleNewConnection,check_of room,ok_bind]
  rfl

theorem Inv.removeConnectionInLoop_eq (inv : s.Inv) (member : conn ∈ s.accepted) (kept : conn.1 ∉ s.removed) :
    s.count conn.2 = 1 ∧ s.removeConnectionInLoop conn = .ok (s.erased conn) := by
  have there := (inv.table conn.2 conn.1).mpr ⟨member,kept⟩
  have one : s.count conn.2 = 1 := by simp [count,there]
  refine ⟨one,?_⟩
  simp only [removeConnectionInLoop,assert_of one,ok_bind]
  rfl

theorem Inv.accept (inv : s.Inv) (room : s.nextConnId + 1 < 2^31) : s.inserted.Inv := by
  have counted := inv.counted
  unfold inserted
  constructor
  · exact inv.short
  · simp only [List.length_append,List.length_singleton]
    omega
  · simp only [List.length_append,List.length_singleton]
    omega
  · have last : (s.accepted.length + 1,s.nameOf s.nextConnId) = s.entry s.accepted.length := by rw [counted]; rfl
    rw [List.length_append,List.length_singleton,List.range_succ,List.map_append,last]
    exact congrArg (· ++ [s.entry s.accepted.length]) inv.listed
  · intro text c
    by_cases eq : text = s.nameOf s.nextConnId
    · subst eq
      have unused := inv.old s.accepted.length le_rfl
      simp only [Function.update_self,Option.some.injEq,List.mem_append,inv.fresh,false_or,List.mem_singleton,
        Prod.mk.injEq,and_true]
      exact ⟨fun same => ⟨same.symm,same ▸ unused⟩,fun member => member.1.symm⟩
    · simp [inv.table,eq]
  · intro k bound
    simp only [List.length_append,List.length_singleton] at bound
    exact inv.old k (by omega)

theorem Inv.remove (inv : s.Inv) (member : conn ∈ s.accepted) : (s.erased conn).Inv := by
  obtain ⟨d,name⟩ := conn
  unfold erased
  constructor
  · exact inv.short
  · exact inv.few
  · exact inv.counted
  · exact inv.listed
  · intro text c
    by_cases eq : text = name
    · subst eq
      simp only [Function.update_self,reduceCtorEq,List.mem_append,List.mem_singleton,not_or,false_iff]
      rintro ⟨there,-,other⟩
      exact other (inv.same there member)
    · have other : (c,text) ∈ s.accepted → c ≠ d := by
        rintro there rfl
        exact eq (inv.name_eq there member)
      simp only [Function.update_of_ne eq,inv.table,List.mem_append,List.mem_singleton,not_or]
      constructor
      · rintro ⟨there,kept⟩
        exact ⟨there,kept,other there⟩
      · rintro ⟨there,kept,-⟩
        exact ⟨there,kept⟩
  · intro k bound gone
    have bound : s.accepted.length ≤ k := bound
    rcases List.mem_append.mp gone with before | now
    · exact inv.old k bound before
    · obtain ⟨j,inside,number,-⟩ := inv.made member
      have same : k + 1 = j + 1 := (List.mem_singleton.mp now).trans number.symm
      omega

theorem Inv.step (inv : s.Inv) (act : Action) (enabled : s.enabled act) : Ensures Inv (s.step act) := by
  cases act with
  | accept => exact ensures_check.bind fun _ room => .ok (inv.accept room)
  | remove conn => exact ensures_assert.bind fun _ _ => .ok (inv.remove enabled.1)

theorem reachable_inv (reachable : machine.Reachable s) : s.Inv := by
  refine reachable.invariant (fun s first => ?_) fun s act s' inv enabled stepped => inv.step act enabled s' stepped
  obtain ⟨name,ipPort,short,rfl⟩ := first
  exact inv_construct short

/-- Names are distinct and complete, the map holds the connections accepted and not yet
removed under their own names, an insertion finds its name unused, and a removal erases
one entry, its own. -/
theorem connection_table (reachable : machine.Reachable s) :
    (s.accepted.map Prod.snd).Nodup ∧
    (∀ conn ∈ s.accepted, conn.2 = s.name ++ ('-' :: cString s.ipPort ++ '#' :: decimal conn.1)) ∧
    (∀ text c, s.connections text = some c ↔ (c,text) ∈ s.accepted ∧ c ∉ s.removed) ∧
    s.connections (s.nameOf s.nextConnId) = none ∧
    (s.accepted.length + 1 < 2^31 - 1 → ∃ s', s.handleNewConnection = .ok s' ∧
      s'.connections = Function.update s.connections (s.nameOf s.nextConnId) (some (s.accepted.length + 1))) ∧
    ∀ conn ∈ s.accepted, conn.1 ∉ s.removed → s.count conn.2 = 1 ∧ ∃ s', s.removeConnectionInLoop conn = .ok s' ∧
      s'.connections = Function.update s.connections conn.2 none := by
  have inv := reachable_inv reachable
  have few := inv.few
  refine ⟨inv.names_nodup,?_,inv.table,?_,fun room => ?_,fun conn member kept => ?_⟩
  · rintro ⟨c,text⟩ member
    obtain ⟨k,bound,rfl,rfl⟩ := inv.made member
    exact nameOf_eq inv.short (by omega)
  · refine Option.eq_none_iff_forall_ne_some.mpr fun c there => ?_
    exact inv.fresh ((inv.table _ c).mp there).1
  · have room : s.nextConnId + 1 < 2^31 := by
      rw [inv.counted]
      omega
    exact ⟨_,handleNewConnection_eq room,rfl⟩
  · obtain ⟨one,done⟩ := inv.removeConnectionInLoop_eq member kept
    exact ⟨one,_,done,rfl⟩

/-- Two connections, of which the first is removed. -/
theorem connection_table_two : ∃ s : ConnectionTable, machine.Reachable s ∧ s.removed = [1] ∧
    s.connections ['e','-','1','#','2'] = some 2 ∧ s.connections ['e','-','1','#','1'] = none := by
  let schedule : List Action := [.accept,.accept,.remove (1,['e','-','1','#','1'])]
  have reachable := Machine.Reachable.follow (m := machine) (.initial ⟨['e'],['1'],by decide,rfl⟩) schedule
    (by decide +kernel)
  have removed : (schedule.foldl machine.advance (construct ['e'] ['1'])).removed = [1] := by decide +kernel
  have accepted : (schedule.foldl machine.advance (construct ['e'] ['1'])).accepted =
      [(1,['e','-','1','#','1']),(2,['e','-','1','#','2'])] := by decide +kernel
  obtain ⟨-,-,table,-⟩ := connection_table reachable
  refine ⟨_,reachable,removed,(table _ 2).mpr ?_,Option.eq_none_iff_forall_ne_some.mpr fun c there => ?_⟩
  · simp [accepted,removed]
  · simpa [accepted,removed] using (table _ c).mp there

end ConnectionTable

namespace System

variable {s t : System} {c : ConnId} {l : LoopId} {name ipPort : List Char}

/-- The list of numbers stands for a map by name. -/
def Tabled (name ipPort : List Char) (s : System) : Prop :=
  ∃ t, ConnectionTable.machine.Reachable t ∧ t.name = name ∧ t.ipPort = ipPort ∧ t.nextConnId = s.nextConnId ∧
    ∀ c : Nat, c ∈ s.connections ↔ t.connections (t.nameOf c) = some c

theorem Tabled.unlist (tabled : s.Tabled name ipPort) (member : c ∈ s.connections) :
    Tabled name ipPort { s with connections := s.connections.filter (· ≠ c) } := by
  obtain ⟨t,reachable,rfl,rfl,next,same⟩ := tabled
  have inv := ConnectionTable.reachable_inv reachable
  have there := (same c).mp member
  have allowed : ConnectionTable.machine.enabled t (.remove (c,t.nameOf (c : Nat))) := (inv.table _ _).mp there
  have done := (inv.removeConnectionInLoop_eq allowed.1 allowed.2).2
  refine ⟨_,.step reachable allowed done,rfl,rfl,next,fun d => ?_⟩
  have listed : d ∈ s.connections.filter (· ≠ c) ↔ t.connections (t.nameOf d) = some d ∧ d ≠ c := by
    rw [List.mem_filter,same,decide_eq_true_eq]
  refine listed.trans ?_
  change _ ↔ Function.update t.connections (t.nameOf (c : Nat)) none (t.nameOf d) = some d
  by_cases eq : t.nameOf d = t.nameOf (c : Nat)
  · rw [eq,there,Function.update_self]
    simp [eq_comm]
  · have other : d ≠ c := fun equal => eq (by rw [equal])
    rw [Function.update_of_ne eq]
    exact and_iff_left other

theorem Tabled.enlist (tabled : s.Tabled name ipPort) (room : s.nextConnId + 1 < 2^31) (x : Link) :
    (s.enlist x).Tabled name ipPort := by
  obtain ⟨t,reachable,rfl,rfl,next,same⟩ := tabled
  have inv := ConnectionTable.reachable_inv reachable
  have last : t.accepted.length + 1 = s.nextConnId := by
    have counted := inv.counted.symm.trans next
    exact_mod_cast counted
  have done := ConnectionTable.handleNewConnection_eq (s := t) (by rw [next]; exact_mod_cast room)
  have allowed : ConnectionTable.machine.enabled t .accept := trivial
  refine ⟨_,.step reachable allowed done,rfl,rfl,?_,fun d => ?_⟩
  · simp only [ConnectionTable.inserted,next,System.enlist]
    push_cast
    rfl
  · change d ∈ s.connections ++ [s.nextConnId] ↔
      Function.update t.connections (t.nameOf t.nextConnId) (some (t.accepted.length + 1)) (t.nameOf d) = some d
    by_cases eq : t.nameOf d = t.nameOf t.nextConnId
    · have unlisted : d ∉ s.connections := fun member => inv.fresh (eq ▸ ((inv.table _ _).mp ((same d).mp member)).1)
      rw [eq,Function.update_self,last]
      simp [unlisted,eq_comm]
    · have other : d ≠ s.nextConnId := fun equal => eq (by rw [equal,next])
      rw [Function.update_of_ne eq,← same]
      simp [other]

/-- What the pieces of a step other than an insertion do to the list. -/
structure Keeps (name ipPort : List Char) (s t : System) : Prop where
  next : t.nextConnId = s.nextConnId
  alive : t.alive = s.alive
  tabled : s.Tabled name ipPort → t.Tabled name ipPort

theorem Keeps.trans (first : Keeps name ipPort s t) (second : Keeps name ipPort t u) : Keeps name ipPort s u :=
  ⟨second.next.trans first.next,second.alive.trans first.alive,fun tabled => second.tabled (first.tabled tabled)⟩

theorem Keeps.of_eq (connections : t.connections = s.connections) (next : t.nextConnId = s.nextConnId)
    (alive : t.alive = s.alive) : Keeps name ipPort s t := by
  refine ⟨next,alive,fun tabled => ?_⟩
  unfold Tabled
  rw [connections,next]
  exact tabled

theorem Keeps.refl : Keeps name ipPort s s := ⟨rfl,rfl,id⟩

/-- A piece that runs on a state with the same list. -/
theorem keeps_after (keeps : Ensures (Keeps name ipPort t) r) (connections : t.connections = s.connections)
    (next : t.nextConnId = s.nextConnId) (alive : t.alive = s.alive) : Ensures (Keeps name ipPort s) r :=
  fun u done => (Keeps.of_eq connections next alive).trans (keeps u done)

theorem removeConnectionInLoop_keeps : Ensures (Keeps name ipPort s) (s.removeConnectionInLoop l c) :=
  ensures_check.bind fun _ _ => ensures_check.bind fun _ _ => (Ensures.any _).bind fun _ _ =>
    ensures_assert.bind fun _ member => .ok ⟨rfl,rfl,fun tabled => tabled.unlist member⟩

theorem removeConnection_keeps : Ensures (Keeps name ipPort s) (s.removeConnection l c) := by
  refine ensures_check.bind fun _ _ => ?_
  split
  · exact removeConnectionInLoop_keeps
  · exact .ok (.of_eq rfl rfl rfl)

theorem applyEffect_keeps (effect : Effect) : Ensures (Keeps name ipPort s) (s.applyEffect l c x effect) := by
  cases effect with
  | closeCb => exact keeps_after (removeConnection_keeps (s := s.record c .closeCb)) rfl rfl rfl
  | connCb | msgCb | queueWriteComplete | queueHighWaterMark | shutDownWrite => exact .ok (.of_eq rfl rfl rfl)

theorem applyEffects_keeps (effects : List Effect) : Ensures (Keeps name ipPort s) (applyEffects l c x effects s) := by
  induction effects generalizing s with
  | nil => exact .ok .refl
  | cons effect effects ih => exact (applyEffect_keeps effect).bind fun t keeps u done => keeps.trans (ih u done)

theorem perform_keeps (method : Link → Except Fault (Link × List Effect)) :
    Ensures (Keeps name ipPort s) (s.perform l c method) := by
  refine (Ensures.any _).bind fun x _ => ensures_check.bind fun _ _ => (Ensures.any _).bind fun result _ => ?_
  obtain ⟨y,effects⟩ := result
  exact keeps_after (applyEffects_keeps effects) rfl rfl rfl

theorem dispatch_keeps (handler : Link → Except Fault (Link × List Effect)) :
    Ensures (Keeps name ipPort s) (s.dispatch l c wants handler) := by
  refine (Ensures.any _).bind fun x _ => ?_
  split
  · exact perform_keeps handler
  · exact .ok .refl

theorem setHandling_keeps : Ensures (Keeps name ipPort s) (s.setHandling c b) :=
  (Ensures.any _).bind fun _ _ => .ok (.of_eq rfl rfl rfl)

theorem runFunctor_keeps (f : Functor) : Ensures (Keeps name ipPort s) (s.runFunctor l io f) := by
  cases f with
  | onConnectEstablished | sendInLoop | shutdownInLoop => exact perform_keeps _
  | onConnectDestroyed =>
    exact (Ensures.any _).bind fun _ _ => ensures_check.bind fun _ _ => .ok (.of_eq rfl rfl rfl)
  | removeConnectionInLoop => exact removeConnectionInLoop_keeps
  | writeComplete | highWaterMark => exact (Ensures.any _).bind fun _ _ => .ok .refl

theorem runTask_keeps (task : Task) : Ensures (Keeps name ipPort s) (s.runTask l io task) := by
  cases task with
  | handleEvent => exact setHandling_keeps.bind fun t keeps => .ok (keeps.trans (.of_eq rfl rfl rfl))
  | stage d stage =>
    cases stage with
    | close | error | read | write => exact dispatch_keeps _
    | done => exact setHandling_keeps
  | doPendingFunctors => exact .ok (.of_eq rfl rfl rfl)
  | functor f => exact runFunctor_keeps f
  | destroy => exact (perform_keeps _).bind fun t keeps => .ok (keeps.trans (.of_eq rfl rfl rfl))

theorem run_keeps : Ensures (Keeps name ipPort s) (s.run l io) := by
  unfold run
  split
  · exact .ok .refl
  · exact keeps_after (runTask_keeps _) rfl rfl rfl

theorem fillActiveChannels_keeps (reports : List (ConnId × PollEvents)) :
    Ensures (Keeps name ipPort s) (fillActiveChannels reports s) := by
  induction reports generalizing s with
  | nil => exact .ok .refl
  | cons report reports ih =>
    refine (Ensures.any _).bind fun x _ => (Ensures.any _).bind fun channel _ => ?_
    exact keeps_after ih rfl rfl rfl

theorem send_keeps : Ensures (Keeps name ipPort s) (s.send thread c message io) := by
  refine (Ensures.any _).bind fun x _ => ?_
  dsimp only
  split
  · split
    · have performed : Ensures (Keeps name ipPort s) ({ s with nextTag := s.nextTag + 1 }.perform x.conn.loop c
          (Link.sendInLoop c io.alloc message io.write)) := keeps_after (perform_keeps _) rfl rfl rfl
      exact performed.bind fun t keeps => .ok (keeps.trans (.of_eq rfl rfl rfl))
    · exact .ok (.of_eq rfl rfl rfl)
  · exact .ok (.of_eq rfl rfl rfl)

theorem shutdown_keeps : Ensures (Keeps name ipPort s) (s.shutdown thread c) := by
  refine (Ensures.any _).bind fun x _ => ?_
  split
  · exact .ok (.of_eq rfl rfl rfl)
  · dsimp only
    split
    · exact keeps_after (perform_keeps _) rfl rfl rfl
    · exact .ok (.of_eq rfl rfl rfl)

theorem push_keeps (call : Call) : Ensures (Keeps name ipPort s) (s.push thread call) := by
  cases call with
  | sending | shuttingDown => exact (Ensures.any _).bind fun _ _ => .ok (.of_eq rfl rfl rfl)

theorem drop_keeps : Ensures (Keeps name ipPort s) (s.drop c) :=
  (Ensures.any _).bind fun _ _ => ensures_assert.bind fun _ _ => (Ensures.any _).bind fun _ _ =>
    .ok (.of_eq rfl rfl rfl)

theorem destroyConnections_keeps (name ipPort : List Char) (order : List ConnId) :
    Ensures (Keeps name ipPort s) (destroyConnections order s) := by
  induction order with
  | nil => exact .ok .refl
  | cons c order ih =>
    refine ih.bind fun t keeps => (Ensures.any _).bind fun x _ => ?_
    split
    · exact .ok (keeps.trans (.of_eq rfl rfl rfl))
    · exact .ok (keeps.trans (.of_eq rfl rfl rfl))

theorem handleNewConnection_keeps (name ipPort : List Char) : Ensures (fun t =>
    t.nextConnId = s.nextConnId + 1 ∧ t.alive = s.alive ∧
    (s.nextConnId + 1 < 2^31 → s.Tabled name ipPort → t.Tabled name ipPort)) (s.handleNewConnection fd alloc) := by
  refine getNextLoop_spec.bind fun result chosen => (Ensures.any _).bind fun input _ =>
    (Ensures.any _).bind fun output _ => ?_
  obtain ⟨ioLoop,t⟩ := result
  obtain ⟨next,rfl⟩ : ∃ next, t = { s with next } := chosen
  dsimp only
  generalize built : Link.mk (TcpConnection.construct ioLoop fd input output s.writeCompleteCb) .empty = x
  have enlisted (u : System) (keeps : Keeps name ipPort ({ s with next }.enlist x) u) :
    u.nextConnId = s.nextConnId + 1 ∧
      u.alive = s.alive ∧ (s.nextConnId + 1 < 2^31 → s.Tabled name ipPort → u.Tabled name ipPort) :=
    ⟨keeps.next,keeps.alive,fun room tabled => keeps.tabled (Tabled.enlist (s := { s with next }) tabled room x)⟩
  split
  · exact fun u done => enlisted u (perform_keeps _ u done)
  · exact .ok (enlisted _ (.of_eq rfl rfl rfl))

/-- The list of a server that is still there is the map by name, whatever the server and
its address are called, as long as the numbers last. -/
theorem listed_by_name (short : ipPort.length ≤ 51) (reachable : machine.Reachable s) (alive : s.alive = true)
    (few : s.nextConnId < 2^31) : s.Tabled name ipPort := by
  induction reachable with
  | initial first =>
    obtain ⟨poolSize,writeCompleteCb,rfl⟩ := first
    exact ⟨.construct name ipPort,.initial ⟨name,ipPort,short,rfl⟩,rfl,rfl,rfl,
      by simp [construct,ConnectionTable.construct]⟩
  | @step s a t before enabled stepped ih =>
    have kept (keeps : Keeps name ipPort s t) : t.Tabled name ipPort :=
      keeps.tabled (ih (keeps.alive ▸ alive) (keeps.next ▸ few))
    cases a with
    | poll l reports =>
      have polled : Ensures (Keeps name ipPort s) (s.poll l reports) :=
        (fillActiveChannels_keeps reports).bind fun u keeps => .ok (keeps.trans (.of_eq rfl rfl rfl))
      exact kept (polled t stepped)
    | run l io => exact kept (run_keeps t stepped)
    | accept fd alloc =>
      obtain ⟨next,same,tabled⟩ := handleNewConnection_keeps name ipPort t stepped
      have room : s.nextConnId + 1 < 2^31 := next ▸ few
      exact tabled room (ih (same ▸ alive) (Nat.lt_of_succ_lt room))
    | destroyServer order =>
      have keeps := destroyConnections_keeps name ipPort order t stepped
      cases keeps.alive.symm.trans alive
    | send thread c message io => exact kept (send_keeps t stepped)
    | push thread call => exact kept (push_keeps call t stepped)
    | shutdown thread c => exact kept (shutdown_keeps t stepped)
    | drop c => exact kept (drop_keeps t stepped)

end System
end Evk
