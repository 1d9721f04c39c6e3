/-
  Mango.Adapter.Context

  The argument discipline of programmable transactions
  (`mgo-execution/latest/mgo-adapter/src/programmable_transactions/context.rs`,
  and `build_move_args` in `execution.rs`): where `borrow_mut_impl` finds the
  value an argument names, and how `by_value_arg`, `borrow_arg_mut`,
  `borrow_arg` and `restore_arg` take, lend and give back a value while the
  `borrowed` map records the borrows of the command.

  The `borrowed` map is keyed by the `Argument` as written, while a value's
  location is what `borrow_mut_impl` resolves the argument to: `Result(i)`
  of a command with one result and `NestedResult(i, 0)` are one location
  under two keys, and an immutable borrow under one followed by a by-value
  use or a mutable borrow of the same value under the other goes through
  (`result_and_nested_result_alias`).

  A value is modelled by what the discipline reads of it, whether its type
  can be copied (objects cannot), with a payload standing for the rest.
  Left out: the Move type check of each argument (`check_param_type`), the
  private-entry check, the typing of receiving arguments at first use, the
  record of each value's last usage (read only by the checks at the end of
  the transaction) and the argument updates of dev-inspect mode. None of
  them changes which values are handed out; the checks only add errors.
-/
import Mango.Lib.VersionTable
import Mango.Lib.Except
import Mango.Core.Object

namespace Mango.Adapter

open Mango.Lib Mango.Core

/-- `Argument`. -/
inductive Argument where
  | gasCoin
  | input (i : Nat)
  | result (i : Nat)
  | nestedResult (i j : Nat)
  deriving DecidableEq, Repr

/-- `CommandArgumentError`, the variants the modelled functions raise. -/
inductive CommandArgumentError where
  | indexOutOfBounds (idx : Nat)
  | secondaryIndexOutOfBounds (resultIdx secondaryIdx : Nat)
  | invalidResultArity (resultIdx : Nat)
  | invalidGasCoinUsage
  | invalidValueUsage
  | invalidObjectByValue
  | invalidObjectByMutRef
  deriving DecidableEq, Repr

/-- `ExecutionError`, as the modelled functions raise it. -/
inductive ExecutionError where
  | commandArgumentError (argIdx : Nat) (kind : CommandArgumentError)
  | arityMismatch
  | invariantViolation (msg : String)
  /-- `ExecutionErrorKind::InsufficientGas`. -/
  | insufficientGas
  deriving DecidableEq, Repr

/-- `CommandKind`, without the names a Move call carries. -/
inductive CommandKind where
  | moveCall
  | makeMoveVec
  | transferObjects
  | splitCoins
  | mergeCoins
  | publish
  | upgrade
  deriving DecidableEq, Repr

/-- A runtime `Value`: whether its type can be copied, and a payload standing
    for its contents. -/
structure Value where
  copyable : Bool
  payload : Nat
  deriving DecidableEq, Repr

/-- `InputObjectMetadata`. -/
inductive InputObjectMetadata where
  | receiving (id version : Nat)
  | inputObject (id : Nat) (isMutableInput : Bool) (owner : Owner) (version : Nat)
  deriving DecidableEq, Repr

/-- `InputValue`: the gas coin or an input, with its object's metadata;
    `none` once the value has been taken. -/
structure InputValue where
  objectMetadata : Option InputObjectMetadata
  inner : Option Value
  deriving DecidableEq, Repr

/-- Where `borrow_mut_impl` finds an argument's value. -/
inductive Location where
  | gas
  | input (i : Nat)
  | result (i j : Nat)
  deriving DecidableEq, Repr

/-- The runtime data of `ExecutionContext`: the gas coin, the inputs, the
    results of the commands so far (`none` once taken), and the borrows of
    the current command. -/
structure ExecutionContext where
  /-- `protocol_config.shared_object_deletion()`. -/
  sharedObjectDeletion : Bool
  gas : InputValue
  inputs : List InputValue
  results : List (List (Option Value))
  borrowed : List (Argument × Bool)
  deriving DecidableEq, Repr

namespace ExecutionContext

/-- The location `borrow_mut_impl` resolves an argument to, with its bound
    checks: `Result(i)` needs a command with exactly one result, and names
    its first. -/
def resolve (ctx : ExecutionContext) : Argument → Except CommandArgumentError Location
  | .gasCoin => .ok .gas
  | .input i => if i < ctx.inputs.length then .ok (.input i) else .error (.indexOutOfBounds i)
  | .result i =>
    match ctx.results[i]? with
    | none => .error (.indexOutOfBounds i)
    | some r => if r.length ≠ 1 then .error (.invalidResultArity i) else .ok (.result i 0)
  | .nestedResult i j =>
    match ctx.results[i]? with
    | none => .error (.indexOutOfBounds i)
    | some r =>
      if j < r.length then .ok (.result i j) else .error (.secondaryIndexOutOfBounds i j)

/-- The object metadata at a location (results have none). -/
def metadata (ctx : ExecutionContext) : Location → Option InputObjectMetadata
  | .gas => ctx.gas.objectMetadata
  | .input i => ctx.inputs[i]?.bind (·.objectMetadata)
  | .result _ _ => none

/-- The value at a location, `none` once taken. -/
def value (ctx : ExecutionContext) : Location → Option Value
  | .gas => ctx.gas.inner
  | .input i => ctx.inputs[i]?.bind (·.inner)
  | .result i j => (ctx.results[i]?.bind (·[j]?)).bind id

/-- Write the value at a location, through the `&mut Option<Value>` that
    `borrow_mut_impl` returns. -/
def setValue (ctx : ExecutionContext) : Location → Option Value → ExecutionContext
  | .gas, v => { ctx with gas := { ctx.gas with inner := v } }
  | .input i, v => { ctx with inputs := ctx.inputs.modify i (fun iv => { iv with inner := v }) }
  | .result i j, v => { ctx with results := ctx.results.modify i (·.set j v) }

/-- What `by_value_arg_` and `borrow_arg_mut_` do with the value they hand
    out: a copyable value is cloned and stays, any other is taken. -/
def takeUnlessCopyable (ctx : ExecutionContext) (loc : Location) (val : Value) : ExecutionContext :=
  if val.copyable then ctx else ctx.setValue loc none

/-- `arg_is_borrowed`. -/
def argIsBorrowed (ctx : ExecutionContext) (arg : Argument) : Bool :=
  (vget ctx.borrowed arg).isSome

/-- `arg_is_mut_borrowed`. -/
def argIsMutBorrowed (ctx : ExecutionContext) (arg : Argument) : Bool :=
  vget ctx.borrowed arg == some true

/-- The checks `by_value_arg_` makes of a value before taking it: it is not
    borrowed unless copyable, it is not the gas coin outside
    `TransferObjects`, and it is not an immutable, shared (without
    shared-object deletion) or read-only input object. -/
def byValueCheck (ctx : ExecutionContext) (commandKind : CommandKind) (arg : Argument)
    (isBorrowed : Bool) (loc : Location) (val : Value) : Except CommandArgumentError Unit := do
  let sharedObjDeletionEnabled := ctx.sharedObjectDeletion
  let isCopyable := val.copyable
  -- Taking a borrowed value that cannot be copied would leave a dangling reference.
  if !isCopyable && isBorrowed then throw .invalidValueUsage
  if arg == .gasCoin && commandKind != .transferObjects then throw .invalidGasCoinUsage
  match ctx.metadata loc with
  | some (.inputObject _ isMutableInput owner _) =>
    if owner == .immutable then throw .invalidObjectByValue
    if owner.isShared && !sharedObjDeletionEnabled then throw .invalidObjectByValue
    if !isMutableInput then throw .invalidObjectByValue
  | _ => pure ()

/-- `by_value_arg_`: after its checks, the value is copied if copyable and
    taken otherwise. -/
def byValueArg_ (ctx : ExecutionContext) (commandKind : CommandKind) (arg : Argument) :
    Except CommandArgumentError (ExecutionContext × Value) := do
  let isBorrowed := ctx.argIsBorrowed arg
  let loc ← ctx.resolve arg
  let some val := ctx.value loc | throw .invalidValueUsage
  byValueCheck ctx commandKind arg isBorrowed loc val
  pure (ctx.takeUnlessCopyable loc val, val)

/-- `borrow_arg_mut_`: a mutable borrow is the only use of its argument in the
    command; the value is taken unless it is copyable, to be restored after
    the call. -/
def borrowArgMut_ (ctx : ExecutionContext) (arg : Argument) :
    Except CommandArgumentError (ExecutionContext × Value) := do
  if ctx.argIsBorrowed arg then throw .invalidValueUsage
  let ctx := { ctx with borrowed := vset ctx.borrowed arg true }
  let loc ← ctx.resolve arg
  let inputMetadataOpt := ctx.metadata loc
  let some val := ctx.value loc | throw .invalidValueUsage
  if let some (.inputObject _ false _ _) := inputMetadataOpt then throw .invalidObjectByMutRef
  pure (ctx.takeUnlessCopyable loc val, val)

/-- `borrow_arg_`: an immutable borrow copies the value out, unless the
    argument is mutably borrowed or the value taken. -/
def borrowArg_ (ctx : ExecutionContext) (arg : Argument) :
    Except CommandArgumentError (ExecutionContext × Value) := do
  if ctx.argIsMutBorrowed arg then throw .invalidValueUsage
  let ctx := { ctx with borrowed := vset ctx.borrowed arg false }
  let loc ← ctx.resolve arg
  let some val := ctx.value loc | throw .invalidValueUsage
  pure (ctx, val)

/-- `by_value_arg`. -/
def byValueArg (ctx : ExecutionContext) (commandKind : CommandKind) (argIdx : Nat)
    (arg : Argument) : Except ExecutionError (ExecutionContext × Value) :=
  (ctx.byValueArg_ commandKind arg).mapError (.commandArgumentError argIdx)

/-- `borrow_arg_mut`. -/
def borrowArgMut (ctx : ExecutionContext) (argIdx : Nat) (arg : Argument) :
    Except ExecutionError (ExecutionContext × Value) :=
  (ctx.borrowArgMut_ arg).mapError (.commandArgumentError argIdx)

/-- `borrow_arg`. -/
def borrowArg (ctx : ExecutionContext) (argIdx : Nat) (arg : Argument) :
    Except ExecutionError (ExecutionContext × Value) :=
  (ctx.borrowArg_ arg).mapError (.commandArgumentError argIdx)

/-- `restore_arg`: the argument must be mutably borrowed, and its value taken
    unless copyable; the value comes back and the borrow ends. -/
def restoreArg (ctx : ExecutionContext) (arg : Argument) (value : Value) :
    Except ExecutionError ExecutionContext := do
  let wasMutOpt := vget ctx.borrowed arg
  let ctx := { ctx with borrowed := verase ctx.borrowed arg }
  if wasMutOpt != some true then
    throw (.invariantViolation ("Should never restore a non-mut borrowed value. " ++
      "The take+restore is an implementation detail of mutable references"))
  let .ok loc := ctx.resolve arg
    | throw (.invariantViolation "Should be able to borrow argument to restore it")
  let oldValue := ctx.value loc
  if !(oldValue.isNone || oldValue.any (·.copyable)) then
    throw (.invariantViolation ("Should never restore a non-taken value, unless it is copyable. " ++
      "The take+restore is an implementation detail of mutable references"))
  pure (ctx.setValue loc (some value))

end ExecutionContext

/-- How a Move function takes a parameter. -/
inductive ParamKind where
  | byValue
  | ref
  | mutRef
  deriving DecidableEq, Repr

/-- One argument of `build_move_args`, passed as its parameter takes it:
    borrowed mutably, borrowed, or taken by value. -/
def passArg (ctx : ExecutionContext) (idx : Nat) :
    Argument × ParamKind → Except ExecutionError (ExecutionContext × Value)
  | (arg, .mutRef) => ctx.borrowArgMut idx arg
  | (arg, .ref) => ctx.borrowArg idx arg
  | (arg, .byValue) => ctx.byValueArg .moveCall idx arg

/-- The loop of `build_move_args` over the arguments and the parameters they
    are passed to, from argument index `idx`. Returns the values handed to
    the call and the indices of those passed by mutable reference. -/
def buildMoveArgsLoop : ExecutionContext → Nat → List (Argument × ParamKind) →
    Except ExecutionError (ExecutionContext × List Value × List Nat)
  | ctx, _, [] => pure (ctx, [], [])
  | ctx, idx, x :: rest => do
    let (ctx, value) ← passArg ctx idx x
    let (ctx, values, byMutRef) ← buildMoveArgsLoop ctx (idx + 1) rest
    pure (ctx, value :: values, if x.2 = .mutRef then idx :: byMutRef else byMutRef)

/-- `build_move_args`: the arity check, then the loop. The parameters are
    those the arguments are passed to; a one-time witness and the
    transaction context, which no argument fills, are left out. -/
def buildMoveArgs (ctx : ExecutionContext) (parameters : List ParamKind) (args : List Argument) :
    Except ExecutionError (ExecutionContext × List Value × List Nat) :=
  if args.length ≠ parameters.length then throw .arityMismatch
  else buildMoveArgsLoop ctx 0 (args.zip parameters)

/-! ## Aliased arguments -/

/-- A command with one result, an object, passed to `f(&T, T)` and to
    `f(&T, &mut T)` as `Result(0)` and then `NestedResult(0, 0)`: each call
    gets the object twice, borrowed immutably and then taken or borrowed
    mutably, since the borrow is recorded under `Result(0)` and the second
    use is checked under `NestedResult(0, 0)`. -/
theorem result_and_nested_result_alias :
    let obj : Value := ⟨false, 7⟩
    let ctx : ExecutionContext := ⟨true, ⟨none, none⟩, [], [[some obj]], []⟩
    (buildMoveArgs ctx [.ref, .byValue] [.result 0, .nestedResult 0 0]).map (·.2.1) =
        .ok [obj, obj] ∧
      (buildMoveArgs ctx [.ref, .mutRef] [.result 0, .nestedResult 0 0]).map (·.2.1) =
        .ok [obj, obj] := by
  decide

end Mango.Adapter
