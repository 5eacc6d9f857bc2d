import DynamicObjects.Builtin.Name
import DynamicObjects.Settings

/-!
# Strict forms of scripts

A strict form acts on the values of its operands, all of which are evaluated first,
from left to right. The forms are grouped by what they act on.
-/

namespace DynamicObjects.Script

/-- How severe a report is. -/
inductive Level where
  | warn
  | error
  | debug
  | exception
  deriving DecidableEq, Repr

/-- Forms on plain values, functions and the course of a visit. -/
inductive ValueForm where
  /-- Goes on with the next visit. -/
  | proceed
  | stop
  /-- Ends the visits with an answer. -/
  | answer
  /-- Ends the step of a fold with a new accumulator and an answer. -/
  | accumulate
  | raise
  /-- Notes a value in the trace. -/
  | trace
  | makeArray
  | makeMap
  | add
  | subtract
  | multiply
  | modulo
  /-- Joins the texts of its operands. -/
  | join
  /-- The displayed form of a value. -/
  | render
  | truthy
  | toJson
  | equal
  /-- Identity of handles. -/
  | same
  | call (b : Builtin)
  | apply
  /-- The parts of a position key. -/
  | key
  /-- The one-word form of a handle. -/
  | brief
  | builtinBrief
  | builtinEqual
  deriving DecidableEq, Repr

/-- Forms on the session: settings and reports. -/
inductive SessionForm where
  | activeSettings
  | report
  deriving DecidableEq, Repr

/-- Forms on registries. -/
inductive RegistryForm where
  | new (settings : Settings)
  | register
  | get
  | classes
  | childrenOf
  | length
  | isEmpty
  | settings
  deriving DecidableEq, Repr

/-- The four tables of a class. -/
inductive Table where
  | methods
  | operations
  | shared
  | properties
  deriving DecidableEq, Repr

/-- Forms on classes. -/
inductive ClassForm where
  | id
  | name
  | displayName
  | parent
  | isClass
  | initializer
  | isSubclassOf
  | hasInstance
  | respondsTo
  | method
  | operation
  | member
  | methodByFullname
  | operationByFullname
  | list (table : Table)
  | shared
  | setShared
  | getOperation
  | callOperation
  | construct
  | bare
  | methodCall
  | operationCall
  | memberInvoke
  deriving DecidableEq, Repr

/-- Forms on instances and on the handles they give. -/
inductive InstanceForm where
  | get
  | set
  | propertyNames
  | classOf
  | isInstance
  | instanceOf
  | getMethod
  | getCallback
  | invoke
  | getSuper
  | boundCall
  /-- The bound method as a function. -/
  | asFunction
  | proxyCall
  | proxyInit
  | proxySuper
  | proxyClass
  | proxyInstance
  deriving DecidableEq, Repr

/-- A strict form. -/
inductive Form where
  | value (form : ValueForm)
  | session (form : SessionForm)
  | registry (form : RegistryForm)
  | cls (form : ClassForm)
  | inst (form : InstanceForm)
  deriving DecidableEq, Repr

end DynamicObjects.Script
