import Mathlib

/-! Go error values as the provider manager inspects them: sentinel variables,
plain texts and values that wrap another error with the `%w` verb. -/
namespace ChainKit

/-- The package-level error variables that the manager compares against. -/
inductive Sentinel
  | providerNotConfigured
  | authFailure
  | canceled
  | deadlineExceeded
  deriving DecidableEq, Repr

def Sentinel.text : Sentinel → String
  | .providerNotConfigured => "provider not configured"
  | .authFailure => "authentication failed"
  | .canceled => "context canceled"
  | .deadlineExceeded => "context deadline exceeded"

/-- `wrap` is `fmt.Errorf` with exactly one `%w`, whose operand is `inner`. -/
inductive GoError
  | sentinel (s : Sentinel)
  | plain (text : String)
  | wrap (before : String) (inner : GoError) (after : String)
  deriving DecidableEq, Repr

namespace GoError

def ErrProviderNotConfigured : GoError := .sentinel .providerNotConfigured
def ErrAuthFailure : GoError := .sentinel .authFailure

/-- The text of an error, `Error()` in the source. -/
def error : GoError → String
  | .sentinel s => s.text
  | .plain text => text
  | .wrap before inner after => before ++ inner.error ++ after

/-- `errors.Is`: the target is met somewhere along the chain of wrapped errors. -/
def is (e target : GoError) : Bool :=
  decide (e = target) || match e with
    | .wrap _ inner _ => inner.is target
    | _ => false

@[simp] theorem is_self (e : GoError) : e.is e = true := by
  unfold is
  simp

/-- The classification on which the manager branches, `errors.Is(err, ErrAuthFailure)`. -/
def isAuth (e : GoError) : Bool := e.is ErrAuthFailure

end GoError

/-- Run-time panics of the Go program that the modelled functions can raise. -/
inductive Panic
  | integerDivideByZero
  | makechanSize
  | int63nArgument
  deriving DecidableEq, Repr

end ChainKit
