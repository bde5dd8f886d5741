import MonkeyLang.Scope.Bindings
import MonkeyLang.Value.Basic

/-!
# Scopes and the store that holds them

A program runs in a scope: bindings of its own, and the scopes around it. Scopes are shared. A
closure keeps the name of the scope it was written in, and a binding made there later is seen by
the closure too. So scopes live in a `Store` and are named by their place in it. A scope is made
once, with the scopes around it fixed then, nearest first; only its bindings change.

A look-up takes the value from the nearest scope that binds the name. The store also deals out
the identities of objects, each one once.
-/

namespace MonkeyLang

/-- Bindings, and the scopes around them, nearest first. -/
structure Scope where
  bindings : Bindings Value
  enclosing : List ScopeId
deriving Inhabited

/-- All scopes there are, and the identity of the next object. -/
structure Store where
  scopes : Array Scope
  nextIdentity : Identity
deriving Inhabited

namespace Store

/-- The store without any scope. -/
def empty : Store := ⟨#[], 0⟩

/-- A scope of the store; a name that is none has no bindings and nothing around it. -/
def scope (s : Store) (σ : ScopeId) : Scope := s.scopes.getD σ ⟨.empty, []⟩

/-- The bindings of a scope, without those around it. -/
def bindings (s : Store) (σ : ScopeId) : Bindings Value := (s.scope σ).bindings

/-- The scopes in which a name is looked up from a scope: itself and those around it. -/
def chain (s : Store) (σ : ScopeId) : List ScopeId := σ :: (s.scope σ).enclosing

/-- The scope directly around a scope, if there is one. -/
def outer? (s : Store) (σ : ScopeId) : Option ScopeId := (s.scope σ).enclosing.head?

/-- The value of a name, seen from a scope. -/
def get? (s : Store) (σ : ScopeId) (name : String) : Option Value :=
  (s.chain σ).findSome? fun τ => (s.bindings τ).get? name

/-- Binds a name in a scope. -/
def set (s : Store) (σ : ScopeId) (name : String) (value : Value) : Store :=
  { s with
    scopes := s.scopes.modify σ fun scope =>
      { scope with bindings := scope.bindings.insert name value } }

/-- A new scope with the given bindings inside other scopes, and the store that holds it. -/
def add (s : Store) (bindings : Bindings Value) (enclosing : List ScopeId) : ScopeId × Store :=
  (s.scopes.size, { s with scopes := s.scopes.push ⟨bindings, enclosing⟩ })

/-- A new scope with nothing around it. -/
def root (s : Store) : ScopeId × Store := s.add .empty []

/-- A new scope directly inside another one. -/
def enclose (s : Store) (σ : ScopeId) : ScopeId × Store := s.add .empty (s.chain σ)

/-- A fresh identity, which is dealt out once. -/
def fresh (s : Store) : Identity × Store :=
  (s.nextIdentity, { s with nextIdentity := s.nextIdentity + 1 })

/-- A new error value. -/
def newError (s : Store) (message : String) : Value × Store :=
  (.error s.fresh.1 message, s.fresh.2)

/-- The store of a new session: one scope, which binds nothing. -/
def initial : Store := empty.root.2

end Store

end MonkeyLang
