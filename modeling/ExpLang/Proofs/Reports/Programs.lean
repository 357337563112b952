import ExpLang.Proofs.Reports.Code

/-!
# What lowering a program reports

A program is lowered in the same way whatever is kept of the findings: it gives the same unit and reports
the same findings under every policy, or stops in the same way. Each finding about types that it reports
is reported by a look that lowering the program comes to.
-/

namespace ExpLang.Lowering

open Resolved

variable {p : Syntax.Program} {policy : QueuePolicy} {s : State}

/-- The class and the method that a program starts in. -/
theorem declareMain_accounts (span : Span) : Accounts p policy s (declareMain span) := by
  unfold declareMain
  dsimp only
  split
  · exact Steady.andThen (steady_modifyUnit nofun) fun _ _ _ => accounts_pure
  · exact .stops fun _ => rfl

/-- Declaring classes accounts for the findings about each. -/
theorem declareClasses_accounts (decls : List (Syntax.ClassDecl Syntax.Stmt)) {s : State} :
    Accounts p policy s (declareClasses decls) := by
  induction decls generalizing s with
  | nil => exact accounts_pure
  | cons decl rest ih =>
    exact Steady.andThen (declare_accounts _ _) fun _ _ _ => ih.bind_pure fun _ _ _ h => h

/-- Declaring a program accounts for its findings. -/
theorem declareProgram_accounts (main : ClassId) (body : List Syntax.Stmt) :
    Accounts p policy s (declareProgram main body) := by
  refine (declareClasses_accounts _).andThen fun declared s₁ _ => ?_
  have hmembers : Accounts p policy s₁ (declareAll (fun r => declareMembers r.1 r.2) declared) :=
    declareAll_accounts (fun r {_} => declareMembers_accounts r.1 r.2) _
  refine hmembers.andThen fun ofClasses s₂ _ => ?_
  have hfunctions : Accounts p policy s₂
      (declareAll (declareMethod main .ofClass) (functionDecls body)) :=
    declareAll_accounts (fun decl {_} => declareMethod_accounts main _ decl) _
  exact hfunctions.bind_pure fun _ _ _ h => h

/-- The statements outside of all functions. -/
theorem lowerMain_accounts {owner : ClassId} {method : MethodId}
    (hjob : Comes p policy (.stmts ⟨owner, some method, true⟩ (.ofMethod owner method)
      (plainStmts p.body)) s) : Accounts p policy s (lowerMain owner method p) :=
  (lowerStmts_accounts _ _ hjob).andThen fun _ _ _ => steady_modifyUnit nofun

/-- The body of a method that waited. -/
theorem lowerBody_accounts {d : Deferred} (hjob : Comes p policy (d.job s.unit) s) :
    Accounts p policy s (lowerBody d) :=
  steady_ask_bind ((lowerStmt_accounts _ d.body hjob).andThen fun _ _ _ => steady_modifyUnit nofun)

/-- All bodies that wait, also those that come to wait meanwhile. -/
theorem lowerDeferred_accounts (n : Nat) {s : State} (hjob : Comes p policy (.bodies n) s) :
    Accounts p policy s (lowerDeferred n) := by
  induction n generalizing s with
  | zero =>
    refine steady_get_bind (fun _ => rfl) ?_
    split
    · exact accounts_pure
    · exact steady_throw
  | succ n ih =>
    refine steady_get_bind (fun _ => rfl) ?_
    split
    · exact accounts_pure
    · rename_i d rest hwaits
      have hbody : Accounts p policy { s with deferred := rest } (lowerBody d) :=
        lowerBody_accounts (hjob.body hwaits)
      refine Steady.andThen (steady_modify (fun _ => rfl) nofun) fun _ s₁ hpop => ?_
      cases hpop
      exact hbody.andThen fun _ _ hrun => ih (hjob.moreBodies hwaits hrun)

/-- Lowering a program accounts for its findings. -/
theorem lowerAll_accounts (p : Syntax.Program) (policy : QueuePolicy) :
    Accounts p policy (.start policy) (lowerAll p) := by
  refine (declareMain_accounts p.span).andThen fun r s₁ hmain => ?_
  refine (declareProgram_accounts r.1 p.body).andThen fun tasks s₂ hprogram => ?_
  have hdeclared : Declared p policy r.1 r.2 tasks s₂ := ⟨s₁, hmain, hprogram⟩
  refine (runTasks_accounts tasks (.tasks hdeclared)).andThen fun _ s₃ htasks => ?_
  refine (lowerMain_accounts (.main hdeclared htasks)).andThen fun _ s₄ hbody => ?_
  refine (lowerDeferred_accounts _ (.bodies hdeclared htasks hbody)).andThen fun _ s₅ _ => ?_
  exact steady_modifyUnit nofun

/-- What a program is lowered to and what is reported about it is the same under every policy, and what
is reported about types is reported by looks. -/
theorem lowerProgram_accounted (p : Syntax.Program) (policy : QueuePolicy) :
    (∃ halt, ∀ policy', lowerProgram p policy' = .error halt) ∨
    ∃ u told, (∀ policy', lowerProgram p policy' =
        .ok (u, DiagnosticQueue.addAll { policy := policy' } told)) ∧
      ∀ d ∈ told, Accounted p policy d := by
  have hrun (policy' : QueuePolicy) : lowerProgram p policy' =
      (lowerAll p ((State.start policy).withQueue { policy := policy' })).map
        fun r => (r.2.unit, r.2.queue) := rfl
  cases lowerAll_accounts p policy with
  | stops hstop => exact .inl ⟨_, fun policy' => by rw [hrun, hstop]; rfl⟩
  | @tells _ s' told htells htold =>
    exact .inr ⟨s'.unit, told, fun policy' => by rw [hrun, htells.of_queue]; rfl, htold⟩

end ExpLang.Lowering
