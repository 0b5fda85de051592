/-!
# The catalogue of error codes

Every error has a stable code. The catalogue gives a short summary and a longer
explanation of each.
-/

namespace ExprMachine

/-- What there is to know about an error code. -/
structure CatalogueEntry where
  code : String
  summary : String
  explanation : String
deriving DecidableEq, Repr

namespace Catalogue

def paragraph (lines : List String) : String :=
  String.join (lines.map fun line => line ++ "\n")

/-- All codes, in the order of the stages that they come from. -/
def entries : List CatalogueEntry := [
  { code := "K-L001"
    summary := "unrecognised input"
    explanation :=
      paragraph [
        "## K-L001: unrecognised input",
        "",
        "The lexer met text that is not part of kiln: a stray character, a",
        "string literal with no closing quote, or an integer literal too large",
        "for a signed 64-bit integer.",
        "",
        "**Example:**",
        "",
        "    let x = 1 & 2;",
        "",
        "kiln has no `&` operator."] },
  { code := "K-P001"
    summary := "expected an expression"
    explanation :=
      paragraph [
        "## K-P001: expected an expression",
        "",
        "A token appeared where an expression had to start.",
        "",
        "**Example:**",
        "",
        "    let x = );"] },
  { code := "K-P002"
    summary := "input ended inside an expression"
    explanation :=
      paragraph [
        "## K-P002: input ended inside an expression",
        "",
        "The source ended where an expression was still expected, usually",
        "after a trailing operator.",
        "",
        "**Example:**",
        "",
        "    1 +"] },
  { code := "K-P003"
    summary := "unexpected token"
    explanation :=
      paragraph [
        "## K-P003: unexpected token",
        "",
        "A specific token was required (for example `=` after `let x`, or a",
        "closing `)`), but a different one was found.",
        "",
        "**Example:**",
        "",
        "    let x 5;",
        "",
        "**Fix:**",
        "",
        "    let x = 5;"] },
  { code := "K-P004"
    summary := "unclosed construct"
    explanation :=
      paragraph [
        "## K-P004: unclosed construct",
        "",
        "The input ended before a required token such as `]`, `)` or `\x7d`.",
        "",
        "**Example:**",
        "",
        "    [1, 2"] },
  { code := "K-P005"
    summary := "expected identifier"
    explanation :=
      paragraph [
        "## K-P005: expected identifier",
        "",
        "`let` must be followed by a name made of letters, digits and `_`,",
        "not starting with a digit.",
        "",
        "**Example:**",
        "",
        "    let 1 = 2;"] },
  { code := "K-P006"
    summary := "expression nested too deeply"
    explanation :=
      paragraph [
        "## K-P006: expression nested too deeply",
        "",
        "The parser accepts at most 10000 levels of nested expressions",
        "(parentheses, operands, array elements and call arguments each add a",
        "level). Bind intermediate results with `let` to flatten the expression.",
        "",
        "**Example:**",
        "",
        "    let x = ((((...1...))));   // with 10000 or more `(`"] },
  { code := "K-C001"
    summary := "undefined variable"
    explanation :=
      paragraph [
        "## K-C001: undefined variable",
        "",
        "A name was used that is neither a global bound with `let` nor a",
        "builtin. A `let` binding is only visible after its own statement, so",
        "`let x = x;` fails for a fresh `x`.",
        "",
        "**Example:**",
        "",
        "    let total = count + 1;"] },
  { code := "K-C002"
    summary := "unsupported expression"
    explanation :=
      paragraph [
        "## K-C002: unsupported expression",
        "",
        "The parser accepts index expressions (`a[0]`) and `if` expressions,",
        "but the bytecode compiler has no lowering for them yet."] },
  { code := "K-C003"
    summary := "operator has no opcode"
    explanation :=
      paragraph [
        "## K-C003: operator has no opcode",
        "",
        "The operator parses but no instruction implements it. `%` is the",
        "only such operator today."] },
  { code := "K-C004"
    summary := "constant pool full"
    explanation :=
      paragraph [
        "## K-C004: constant pool full",
        "",
        "Constants are addressed by a 16-bit operand, so one session can hold",
        "at most 65536 integer and string literals. Each literal occurrence",
        "takes its own slot. Start a new session to reset the pool."] },
  { code := "K-C005"
    summary := "operand out of range"
    explanation :=
      paragraph [
        "## K-C005: operand out of range",
        "",
        "An instruction operand would not fit its encoding: an array literal",
        "with more than 65535 elements, a call with more than 255 arguments,",
        "or more than 65536 globals."] },
  { code := "K-R001"
    summary := "stack overflow"
    explanation :=
      paragraph [
        "## K-R001: stack overflow",
        "",
        "The program needed more stack slots than the VM has. Very large array",
        "literals and deeply nested expressions push one slot per pending",
        "value.",
        "",
        "Raise the limit with `--stack-size N` or `KILN_STACK_SIZE=N`",
        "(default 2048)."] },
  { code := "K-R002"
    summary := "stack underflow"
    explanation :=
      paragraph [
        "## K-R002: stack underflow",
        "",
        "An instruction tried to pop from an empty stack. Compiled programs",
        "never do this; it indicates malformed bytecode."] },
  { code := "K-R003"
    summary := "unsupported operand types"
    explanation :=
      paragraph [
        "## K-R003: unsupported operand types",
        "",
        "`+ - * /` only work on integers.",
        "",
        "**Example:**",
        "",
        "    \"a\" + \"b\""] },
  { code := "K-R004"
    summary := "unsupported operand type"
    explanation :=
      paragraph [
        "## K-R004: unsupported operand type",
        "",
        "Prefix `-` only works on integers.",
        "",
        "**Example:**",
        "",
        "    -true"] },
  { code := "K-R005"
    summary := "unknown operator for operand types"
    explanation :=
      paragraph [
        "## K-R005: unknown operator for operand types",
        "",
        "`>` and `<` compare integers only. `==` and `!=` accept any values;",
        "for non-integers they compare identity, so two separately written",
        "string literals are never equal.",
        "",
        "**Example:**",
        "",
        "    true > false"] },
  { code := "K-R006"
    summary := "division by zero"
    explanation :=
      paragraph [
        "## K-R006: division by zero",
        "",
        "The right operand of `/` was zero."] },
  { code := "K-R007"
    summary := "integer overflow"
    explanation :=
      paragraph [
        "## K-R007: integer overflow",
        "",
        "An arithmetic result did not fit in a signed 64-bit integer. This",
        "includes negating, or dividing by -1, the smallest integer."] },
  { code := "K-R008"
    summary := "unknown opcode"
    explanation :=
      paragraph [
        "## K-R008: unknown opcode",
        "",
        "The VM found a byte that is not a kiln opcode. This indicates a",
        "compiler bug, not a user error."] },
  { code := "K-R009"
    summary := "calling a non-function"
    explanation :=
      paragraph [
        "## K-R009: calling a non-function",
        "",
        "Only builtins can be called.",
        "",
        "**Example:**",
        "",
        "    let x = 5; x(1)"] }]

/-- Whether two texts are equal but for the case of ASCII letters. -/
def sameButCase (left right : String) : Bool :=
  left.toList.map Char.toLower = right.toList.map Char.toLower

/-- The entry of a code, in which case does not matter. -/
def find? (code : String) : Option CatalogueEntry :=
  entries.find? fun entry => sameButCase entry.code code

end Catalogue

end ExprMachine
