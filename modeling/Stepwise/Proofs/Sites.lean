/-
Where the running functions stand in the program.

Function values are made as the program runs, without bound, and they may be bound to any name.  But
each was declared by a statement of the program, and that statement has a site: the way to it
through the bodies of the functions around it.  An environment is made by a declaration, and belongs
to it for good.  So the sites of all environments can be kept beside a run (`Program.sitesAt`): a
declaration enters the site at which it stands.

`Placed` says that the sites are right: the declaration of every function that is bound or running
stands at the site of its environment, and what is left to do, there and in all callers, is the end
of the code at that site.  It holds at all events (`Program.sceneAt_placed`).
-/
import Stepwise.Proofs.CallStack
import Stepwise.Proofs.Safety

namespace Stepwise

variable {ε : Type}

/-- A way to a function declaration: how many statements follow it in its list, and then the same of
the functions around it, from the inside out.  The program itself is at the empty site. -/
abbrev Site := List Nat

/-! ## Counting declarations -/

namespace Statement

mutual

/-- The function declarations in a statement, itself included. -/
def functionCount : Statement → Nat
  | function _ _ body _ _ => listFunctionCount body + 1
  | define _ _ _ => 0
  | hole => 0

def listFunctionCount : List Statement → Nat
  | [] => 0
  | s :: ss => s.functionCount + listFunctionCount ss

end

mutual

/-- The sites of the declarations in a statement that stands before `following` others in the code
at `outer`. -/
def sites (outer : Site) (following : Nat) : Statement → List Site
  | function _ _ body _ _ => (following :: outer) :: listSites (following :: outer) body
  | define _ _ _ => []
  | hole => []

def listSites (outer : Site) : List Statement → List Site
  | [] => []
  | s :: ss => s.sites outer ss.length ++ listSites outer ss

end

mutual

theorem length_sites (outer : Site) (following : Nat) :
    ∀ s : Statement, (s.sites outer following).length = s.functionCount
  | .function _ _ body _ _ => by
    simp only [sites, functionCount, List.length_cons, length_listSites (following :: outer) body]
  | .define _ _ _ => rfl
  | .hole => rfl

theorem length_listSites (outer : Site) :
    ∀ ss : List Statement, (listSites outer ss).length = listFunctionCount ss
  | [] => rfl
  | s :: ss => by
    simp only [listSites, listFunctionCount, List.length_append, length_sites outer ss.length s,
      length_listSites outer ss]

end

mutual

/-- What stands in a statement is reached through it. -/
theorem suffix_of_mem_sites {outer site : Site} {following : Nat} :
    ∀ s : Statement, site ∈ s.sites outer following → following :: outer <:+ site
  | .function _ _ body _ _, h => by
    rcases List.mem_cons.mp h with rfl | h
    · exact List.suffix_refl _
    · obtain ⟨k, -, hsuffix⟩ := suffix_of_mem_listSites body h
      exact (List.suffix_cons k _).trans hsuffix
  | .define _ _ _, h => absurd h List.not_mem_nil
  | .hole, h => absurd h List.not_mem_nil

theorem suffix_of_mem_listSites {outer site : Site} :
    ∀ ss : List Statement, site ∈ listSites outer ss → ∃ k < ss.length, k :: outer <:+ site
  | [], h => absurd h List.not_mem_nil
  | s :: ss, h => by
    rw [listSites] at h
    rcases List.mem_append.mp h with h | h
    · exact ⟨ss.length, Nat.lt_succ_self _, suffix_of_mem_sites s h⟩
    · obtain ⟨k, hk, hsuffix⟩ := suffix_of_mem_listSites ss h
      exact ⟨k, Nat.lt_succ_of_lt hk, hsuffix⟩

end

mutual

theorem nodup_sites (outer : Site) (following : Nat) :
    ∀ s : Statement, (s.sites outer following).Nodup
  | .function _ _ body _ _ => by
    refine List.nodup_cons.mpr ⟨fun h => ?_, nodup_listSites (following :: outer) body⟩
    obtain ⟨k, -, hsuffix⟩ := suffix_of_mem_listSites body h
    have hle := hsuffix.length_le
    simp only [List.length_cons] at hle
    omega
  | .define _ _ _ => List.nodup_nil
  | .hole => List.nodup_nil

/-- No two declarations have the same site. -/
theorem nodup_listSites (outer : Site) : ∀ ss : List Statement, (listSites outer ss).Nodup
  | [] => List.nodup_nil
  | s :: ss => by
    rw [listSites]
    refine List.nodup_append.mpr ⟨nodup_sites outer ss.length s, nodup_listSites outer ss, ?_⟩
    rintro site hs _ hss rfl
    -- The two ways part at the numbers of the statements that follow.
    have hsuffix := suffix_of_mem_sites s hs
    obtain ⟨k, hk, hsuffix'⟩ := suffix_of_mem_listSites ss hss
    have hway := List.suffix_of_suffix_length_le hsuffix hsuffix' (Nat.le_refl _)
    have hsame := hway.eq_of_length rfl
    have hk' : ss.length = k := (List.cons.inj hsame).1
    omega

end

theorem sites_subset_listSites {outer : Site} {s : Statement} {rest ss : List Statement}
    (h : s :: rest <:+ ss) : s.sites outer rest.length ⊆ listSites outer ss := by
  induction ss with
  | nil => exact absurd (List.suffix_nil.mp h) (List.cons_ne_nil _ _)
  | cons s' ss ih =>
    rw [listSites]
    rcases List.suffix_cons_iff.mp h with heq | h
    · obtain ⟨rfl, rfl⟩ := List.cons.inj heq
      exact List.subset_append_left _ _
    · exact List.Subset.trans (ih h) (List.subset_append_right _ _)

end Statement

namespace Program

/-- The number of function declarations in a program, nested ones included. -/
def functionCount (p : Program) : Nat := Statement.listFunctionCount p.statements

def sites (p : Program) : List Site := Statement.listSites [] p.statements

/-- The statements at a site: those of the program, or the body of the function declared there. -/
inductive CodeAt (p : Program) : Site → List Statement → Prop where
  | top : CodeAt p [] p.statements
  | body {site : Site} {ss rest : List Statement} {decl : FunctionDecl} : CodeAt p site ss →
      decl.statement :: rest <:+ ss → CodeAt p (rest.length :: site) decl.body

/-- The function declared at a site. -/
def DeclaredAt (p : Program) (site : Site) (decl : FunctionDecl) : Prop :=
  ∃ outer ss rest, p.CodeAt outer ss ∧ decl.statement :: rest <:+ ss ∧ site = rest.length :: outer

variable {p : Program} {site : Site} {ss : List Statement} {decl : FunctionDecl}

theorem CodeAt.listSites_subset (h : p.CodeAt site ss) :
    Statement.listSites site ss ⊆ p.sites := by
  induction h with
  | top => exact List.Subset.refl _
  | @body site ss rest decl _ hdecl ih =>
    have hsites : decl.statement.sites site rest.length ⊆ Statement.listSites site ss :=
      Statement.sites_subset_listSites hdecl
    exact List.Subset.trans (List.subset_cons_self _ _) (List.Subset.trans hsites ih)

theorem DeclaredAt.mem_sites (h : p.DeclaredAt site decl) : site ∈ p.sites := by
  obtain ⟨outer, ss, rest, hcode, hdecl, rfl⟩ := h
  exact hcode.listSites_subset (Statement.sites_subset_listSites hdecl List.mem_cons_self)

theorem DeclaredAt.codeAt (h : p.DeclaredAt site decl) : p.CodeAt site decl.body := by
  obtain ⟨outer, ss, rest, hcode, hdecl, rfl⟩ := h
  exact .body hcode hdecl

end Program

/-! ## Sites of environments -/

/-- The sites of all environments when the work of a scene is done: a declaration enters its own. -/
def Scene.sitesNext (sc : Scene) (sites : List Site) : List Site :=
  match sc.machine.task with
  | .declare _ rest => sites ++ [rest.length :: sites.getD sc.env []]
  | _ => sites

/-- The sites of all environments at event `n`: the declarations that made them. -/
def Program.sitesAt (p : Program) : Nat → List Site
  | 0 => [[]]
  | n + 1 => (p.sceneAt .fresh n).elim (p.sitesAt n) fun sc => sc.sitesNext (p.sitesAt n)

/-- The statements are the end of the code at the site of an environment. -/
def HasCode (p : Program) (sites : List Site) (e : EnvId) (ss : List Statement) : Prop :=
  ∃ site code, sites[e]? = some site ∧ p.CodeAt site code ∧ ss <:+ code

/-- The function is declared at the site of an environment. -/
def HasDecl (p : Program) (sites : List Site) (e : EnvId) (decl : FunctionDecl) : Prop :=
  ∃ site, sites[e]? = some site ∧ p.DeclaredAt site decl

section

variable {p : Program} {sites : List Site} {e : EnvId} {decl : FunctionDecl} {s : Statement}
  {ss rest : List Statement}

theorem getElem?_append_of_eq_some {site : Site} (h : sites[e]? = some site) (more : List Site) :
    (sites ++ more)[e]? = some site := by
  rw [List.getElem?_append_left (List.getElem?_eq_some_iff.mp h).1]
  exact h

theorem HasCode.append (h : HasCode p sites e ss) (more : List Site) :
    HasCode p (sites ++ more) e ss := by
  obtain ⟨site, code, hsite, hrest⟩ := h
  exact ⟨site, code, getElem?_append_of_eq_some hsite more, hrest⟩

theorem HasCode.tail (h : HasCode p sites e (s :: rest)) : HasCode p sites e rest := by
  obtain ⟨site, code, hsite, hcode, hsuffix⟩ := h
  exact ⟨site, code, hsite, hcode, (List.suffix_cons s rest).trans hsuffix⟩

theorem HasDecl.append (h : HasDecl p sites e decl) (more : List Site) :
    HasDecl p (sites ++ more) e decl := by
  obtain ⟨site, hsite, hdecl⟩ := h
  exact ⟨site, getElem?_append_of_eq_some hsite more, hdecl⟩

theorem HasDecl.body (h : HasDecl p sites e decl) : HasCode p sites e decl.body := by
  obtain ⟨site, hsite, hdecl⟩ := h
  exact ⟨site, decl.body, hsite, hdecl.codeAt, List.suffix_refl _⟩

/-- The environment that a declaration makes has the site of the declaration. -/
theorem HasCode.declared (h : HasCode p sites e (decl.statement :: rest)) :
    HasDecl p (sites ++ [rest.length :: sites.getD e []]) sites.length decl := by
  obtain ⟨site, code, hsite, hcode, hsuffix⟩ := h
  refine ⟨rest.length :: site, ?_, site, code, rest, hcode, hsuffix, rfl⟩
  rw [List.getD_eq_getElem?_getD, hsite]
  exact List.getElem?_concat_length

end

/-! ## What is bound, running and left to do -/

/-- A function value was declared at the site of its environment. -/
def Value.Placed (p : Program) (sites : List Site) : Value → Prop
  | .function f => ∃ e, f.capture = .env e ∧ HasDecl p sites e f.decl
  | _ => True

theorem Value.Placed.append {p : Program} {sites : List Site} {v : Value}
    (h : v.Placed p sites) (more : List Site) : v.Placed p (sites ++ more) := by
  cases v with
  | function f =>
    obtain ⟨e, hcapture, hdecl⟩ := h
    exact ⟨e, hcapture, hdecl.append more⟩
  | number x => trivial
  | absent => trivial

/-- Each running call was declared at the site of its environment, and its caller has the rest of
its own code left to do. -/
def CallsPlaced (p : Program) (sites : List Site) (globalEnv : EnvId) : List Activation → Prop
  | [] => True
  | a :: calls => HasDecl p sites a.env a.decl ∧
      HasCode p sites (Machine.currentEnv globalEnv calls) a.rest ∧
      CallsPlaced p sites globalEnv calls

theorem CallsPlaced.append {p : Program} {sites : List Site} {globalEnv : EnvId}
    {calls : List Activation} (h : CallsPlaced p sites globalEnv calls) (more : List Site) :
    CallsPlaced p (sites ++ more) globalEnv calls := by
  induction calls with
  | nil => trivial
  | cons a calls ih => exact ⟨h.1.append more, h.2.1.append more, ih h.2.2⟩

theorem CallsPlaced.hasDecl {p : Program} {sites : List Site} {globalEnv : EnvId}
    {calls : List Activation} (h : CallsPlaced p sites globalEnv calls) {a : Activation}
    (ha : a ∈ calls) : HasDecl p sites a.env a.decl := by
  induction calls with
  | nil => cases ha
  | cons b calls ih =>
    rcases List.mem_cons.mp ha with rfl | ha
    · exact h.1
    · exact ih h.2.2 ha

/-- The statements that are left to do when a task has been announced. -/
def Task.pending (p : Program) : Task → List Statement
  | .start => p.statements
  | .sourceFile => p.statements
  | .statementList ss => ss
  | .statement s rest => s :: rest
  | .define name value pos rest => .define name value pos :: rest
  | .declare decl rest => decl.statement :: rest
  | .functionBody decl => decl.body

/-- The sites are right for a parked machine. -/
structure Placed (p : Program) (sites : List Site) (m : Machine) (memory : Memory) : Prop where
  program : m.program = p
  aligned : sites.length = memory.store.chains.size
  values : memory.store.Holds (Value.Placed p sites)
  calls : CallsPlaced p sites m.globalEnv m.calls
  task : HasCode p sites (Machine.currentEnv m.globalEnv m.calls) (m.task.pending p)

namespace Machine

variable {p : Program} {sites : List Site} {m m' : Machine} {memory memory' : Memory}

theorem proceed_placed (hm : m.program = p) (calls : List Activation) :
    ∀ {last : Option Value} {rest : List Statement} {memory : Memory},
      sites.length = memory.store.chains.size → memory.store.Holds (Value.Placed p sites) →
      CallsPlaced p sites m.globalEnv calls →
      HasCode p sites (currentEnv m.globalEnv calls) rest →
      m.proceed (ε := ε) calls last rest memory = (memory', .parked m') →
      Placed p sites m' memory' ∧ ∃ k, m'.calls = calls.drop k := by
  induction calls with
  | nil =>
    intro last rest memory hsize hvalues hcalls hcode h
    cases rest with
    | cons s rest =>
      cases h
      exact ⟨⟨hm, hsize, hvalues, hcalls, hcode⟩, 0, rfl⟩
    | nil => cases last <;> cases h
  | cons a calls ih =>
    intro last rest memory hsize hvalues hcalls hcode h
    cases rest with
    | cons s rest =>
      cases h
      exact ⟨⟨hm, hsize, hvalues, hcalls, hcode⟩, 0, rfl⟩
    | nil =>
      -- The call is left, and its caller goes on in its own code.
      rw [proceed] at h
      cases hv : returnValue (ε := ε) memory.store a.env a.decl with
      | error why =>
        rw [hv] at h
        cases h
      | ok v =>
        have hplaced : v.Placed p sites := Direct.returnValue_of_holds (fun _ => trivial) hvalues hv
        simp only [hv, Memory.bind, Memory.store_endCall] at h
        cases hb : (memory.store.popped a.env).bind (currentEnv m.globalEnv calls) a.target v with
        | none =>
          rw [hb] at h
          cases h
        | some t =>
          rw [hb] at h
          have hsize' : sites.length = t.chains.size := by
            rw [Store.size_chains_bind hb, Store.size_chains_popped, hsize]
          obtain ⟨hresult, k, hk⟩ := ih hsize' ((hvalues.popped a.env).bind hb hplaced) hcalls.2.2
            hcalls.2.1 h
          exact ⟨hresult, k + 1, hk⟩

theorem bindAndProceed_placed (h : Placed p sites m memory) {name : Text} {v : Value}
    {rest : List Statement} (hv : v.Placed p sites)
    (hrest : HasCode p sites (currentEnv m.globalEnv m.calls) rest)
    (hresume : m.bindAndProceed (ε := ε) name v rest memory = (memory', .parked m')) :
    Placed p sites m' memory' ∧ ∃ k, m'.calls = m.calls.drop k := by
  simp only [bindAndProceed, Memory.bind] at hresume
  cases hb : memory.store.bind (currentEnv m.globalEnv m.calls) name v with
  | none =>
    rw [hb] at hresume
    cases hresume
  | some t =>
    rw [hb] at hresume
    exact proceed_placed h.program m.calls (h.aligned.trans (Store.size_chains_bind hb).symm)
      (h.values.bind hb hv) h.calls hrest hresume

/-- A call that is entered begins with the body of its function. -/
theorem enter_placed (h : Placed p sites m memory) {target : Text} {rest : List Statement}
    {argument : Text} {f : Closure} {v : Value} (hf : (Value.function f).Placed p sites)
    (hv : v.Placed p sites) (hrest : HasCode p sites (currentEnv m.globalEnv m.calls) rest)
    (hresume : m.enter (ε := ε) target rest argument f v memory = (memory', .parked m')) :
    Placed p sites m' memory' ∧
      ∃ a, m'.calls = a :: m.calls ∧ m'.task = .functionBody a.decl := by
  obtain ⟨e, hcapture, hdecl⟩ := hf
  simp only [enter, hcapture] at hresume
  cases hresume
  refine ⟨⟨h.program, ?_, h.values.push e f.decl.parameter hv, ⟨hdecl, hrest, h.calls⟩,
    hdecl.body⟩, _, rfl, rfl⟩
  show sites.length = (memory.store.push e f.decl.parameter v).chains.size
  rw [Store.size_chains_push, h.aligned]

theorem declare_placed (h : Placed p sites m memory) {decl : FunctionDecl} {rest : List Statement}
    (hm : m.task = .declare decl rest)
    (hresume : m.resume (ε := ε) memory = (memory', .parked m')) :
    Placed p (sites ++ [rest.length :: sites.getD (currentEnv m.globalEnv m.calls) []]) m' memory' ∧
      ∃ k, m'.calls = m.calls.drop k := by
  have hcode := h.task
  rw [hm] at hcode
  simp only [resume, hm, Memory.declare_eq] at hresume
  cases hb : memory.store.bind (currentEnv m.globalEnv m.calls) decl.name
      (memory.declared decl) with
  | none =>
    rw [hb] at hresume
    cases hresume
  | some t =>
    rw [hb] at hresume
    have hnew : (memory.declared decl).Placed p
        (sites ++ [rest.length :: sites.getD (currentEnv m.globalEnv m.calls) []]) := by
      refine ⟨memory.nextEnv, rfl, ?_⟩
      rw [show memory.nextEnv = sites.length from h.aligned.symm]
      exact hcode.declared
    refine proceed_placed h.program m.calls ?_ ?_ (h.calls.append _) (hcode.tail.append _) hresume
    · rw [Store.size_chains_snapshot, Store.size_chains_bind hb, ← h.aligned]
      exact List.length_append
    · exact ((h.values.imp fun v hv => hv.append _).bind hb hnew).of_frames rfl

/-- The task is taken up as another one with the same statements left to do. -/
theorem park_placed (h : Placed p sites m memory) {task : Task}
    (hpending : task.pending p = m.task.pending p)
    (hresume : (memory, m.park (ε := ε) task m.calls) = (memory', .parked m')) :
    Placed p sites m' memory' ∧ ∃ k, m'.calls = m.calls.drop k := by
  cases hresume
  exact ⟨⟨h.program, h.aligned, h.values, h.calls, hpending ▸ h.task⟩, 0, rfl⟩

theorem define_placed (h : Placed p sites m memory) {name : Text} {value : Initializer}
    {pos : Position} {rest : List Statement} (hm : m.task = .define name value pos rest)
    (hresume : m.resume (ε := ε) memory = (memory', .parked m')) :
    Placed p sites m' memory' ∧ ((∃ k, m'.calls = m.calls.drop k) ∨
      ∃ a, m'.calls = a :: m.calls ∧ m'.task = .functionBody a.decl) := by
  have hcode := h.task
  rw [hm] at hcode
  have hrest := hcode.tail
  cases value with
  | literal lexeme =>
    simp only [resume, hm, literalValue] at hresume
    cases hread : Numeral.read lexeme with
    | error e =>
      rw [hread] at hresume
      cases hresume
    | ok x =>
      rw [hread] at hresume
      have hnumber : (Value.number x).Placed p sites := trivial
      obtain ⟨hplaced, hcalls⟩ := bindAndProceed_placed h hnumber hrest hresume
      exact ⟨hplaced, .inl hcalls⟩
  | call callee argument =>
    simp only [resume, hm] at hresume
    cases hcall : resolveCall memory.store (currentEnv m.globalEnv m.calls) callee argument
        pos with
    | error d =>
      rw [hcall] at hresume
      cases hresume
    | ok fv =>
      rw [hcall] at hresume
      obtain ⟨hf, hv⟩ := Direct.resolveCall_eq_ok hcall
      obtain ⟨hplaced, hcalls⟩ :=
        enter_placed h (h.values.lookup hf) (h.values.lookup hv) hrest hresume
      exact ⟨hplaced, .inr hcalls⟩
  | hole =>
    simp only [resume, hm] at hresume
    cases hresume

end Machine

open Machine

variable {p : Program}

/-- From one event to the next: some of the running calls have ended, or one more has begun. -/
theorem Placed.next {sites : List Site} {sc sc' : Scene} (h : Placed p sites sc.machine sc.memory)
    (hnext : sc.next = some sc') :
    Placed p (sc.sitesNext sites) sc'.machine sc'.memory ∧
      ((∃ k, sc'.machine.calls = sc.machine.calls.drop k) ∨
        ∃ a, sc'.machine.calls = a :: sc.machine.calls ∧
          sc'.machine.task = .functionBody a.decl) := by
  have hresume : sc.machine.resume (ε := Empty) sc.memory = (sc'.memory, .parked sc'.machine) := by
    rcases sc.resume_cases Empty with ⟨_, hsc, hresume⟩ | ⟨_, _, hnone, -⟩
    · cases hsc.symm.trans hnext
      exact hresume
    · cases hnone.symm.trans hnext
  unfold Scene.sitesNext
  cases htask : sc.machine.task with
  | declare decl rest => exact And.imp_right .inl (declare_placed h htask hresume)
  | define name value pos rest => exact define_placed h htask hresume
  | start =>
    simp only [resume, htask] at hresume
    exact And.imp_right .inl (park_placed h (htask ▸ rfl) hresume)
  | sourceFile =>
    simp only [resume, htask] at hresume
    exact And.imp_right .inl (park_placed h (htask ▸ h.program ▸ rfl) hresume)
  | functionBody decl =>
    simp only [resume, htask] at hresume
    exact And.imp_right .inl (park_placed h (htask ▸ rfl) hresume)
  | statementList ss =>
    simp only [resume, htask] at hresume
    have hcode := h.task
    rw [htask] at hcode
    exact And.imp_right .inl (proceed_placed h.program _ h.aligned h.values h.calls hcode hresume)
  | statement s rest =>
    simp only [resume, htask] at hresume
    cases s with
    | define name value pos => exact And.imp_right .inl (park_placed h (htask ▸ rfl) hresume)
    | function name parameter body ret pos =>
      exact And.imp_right .inl (park_placed h (htask ▸ rfl) hresume)
    | hole =>
      have hprogress := congrArg Prod.snd hresume
      cases hprogress

theorem Program.sitesAt_succ {n : Nat} {sc : Scene} (h : p.sceneAt .fresh n = some sc) :
    p.sitesAt (n + 1) = sc.sitesNext (p.sitesAt n) := by
  rw [sitesAt, h]
  rfl

/-- At every event the sites are right. -/
theorem Program.sceneAt_placed {n : Nat} : ∀ {sc : Scene}, p.sceneAt .fresh n = some sc →
    Placed p (p.sitesAt n) sc.machine sc.memory := by
  induction n with
  | zero =>
    intro sc h
    obtain rfl := Option.some.inj h
    exact ⟨rfl, rfl, Memory.holds_fresh _, trivial, [], p.statements, rfl, .top, List.suffix_refl _⟩
  | succ n ih =>
    intro sc' h
    obtain ⟨sc, hsc, hnext⟩ := Scene.after_succ_last h
    rw [Program.sitesAt_succ hsc]
    exact ((ih hsc).next hnext).1

end Stepwise
