import ClassFoundry.Syntax.Program

/-!
# Sample programs

Three small programs for demonstration.

## Main definitions

* `maxSample`, `loopSample`, `helloSample`
* `sample?`: a sample by its name
-/

namespace ClassFoundry

/-- `max(a, b)` returns the larger argument. -/
def maxSample : Program where
  name := "Max"
  functions := [{
    name := "max"
    params := [⟨"a", .i32⟩, ⟨"b", .i32⟩]
    returnType := .i32
    body := [.ifElse (.compare .gt (.ident "a" .i32) (.ident "b" .i32) .bool)
      [.ret (some (.ident "a" .i32))] [.ret (some (.ident "b" .i32))]] }]

/-- `count(n)` counts up to `n` and prints each step. -/
def loopSample : Program where
  name := "Loop"
  functions := [{
    name := "count"
    params := [⟨"n", .i32⟩]
    returnType := .i32
    body := [
      .declare "i" .i32 (some (.int 0 .i32)),
      .loop (.compare .lt (.ident "i" .i32) (.ident "n" .i32) .bool) [
        .assign "i" (.arith .add (.ident "i" .i32) (.int 1 .i32) .i32),
        .call none "println" [.ident "i" .i32] .void],
      .ret (some (.ident "i" .i32))] }]

/-- `main()` prints a greeting. -/
def helloSample : Program where
  name := "Hello"
  functions := [{
    name := "main"
    params := []
    returnType := .void
    body := [
      .declare "greeting" .string (some (.str "Hello, ")),
      .call none "println"
        [.call none "strcat" [.ident "greeting" .string, .str "world!"] .string] .void] }]

/-- A sample by its name. -/
def sample? (name : String) : Option Program :=
  if name = "max" then some maxSample
  else if name = "loop" then some loopSample
  else if name = "hello" then some helloSample
  else none

end ClassFoundry
