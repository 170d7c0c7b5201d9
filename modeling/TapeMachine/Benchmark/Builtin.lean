import TapeMachine.Benchmark.Basic

/-!
# Built-in benchmarks

One suite for the patterns that lowering rewrites, and one of small programs that people know.
-/

namespace TapeMachine.Benchmark

def copies (n : Nat) (c : Char) : String := String.ofList (List.replicate n c)

def micro : Suite where
  name := "Micro"
  benchmarks :=
    [{ name := "cell_wrapping"
       description := "4K inner loops counting a cell up through 255 to 0"
       code := "++++++++++++++++[>-[>+[+]<-]<-]" },
      { name := "nested_loops"
        description := "Four nested loops of 16 iterations each"
        code := "++++++++++++++++[>++++++++++++++++[>++++++++++++++++[>++++++++++++++++" ++
          "[>+<-]<-]<-]<-]" },
      { name := "clear_loops"
        description := "4K clear loops on a cell holding 255"
        code := "++++++++++++++++[>-[>-[-]<-]<-]" },
      { name := "pointer_sweep"
        description := "65K transfers across ten cells"
        code := "-[>-[>>>>>>>>>>+<<<<<<<<<<-]<-]" },
      { name := "counted_runs"
        description := "Long runs of identical commands"
        code := copies 1000 '+' ++ "[-]" ++ copies 1000 '>' ++ copies 1000 '<' }]

/-- The small letters, over and over. -/
def letters (n : Nat) : List UInt8 := (List.range n).map fun i => UInt8.ofNat (97 + i % 26)

def classic : Suite where
  name := "Classic"
  benchmarks :=
    [{ name := "hello_world"
       description := "Prints Hello World!"
       code := "++++++++[>++++[>++>+++>+++>+<<<<-]>+>+>->>+[<]<-]" ++
        ">>.>---.+++++++..+++.>>.<-.<.+++.------.--------.>>+.>++.\n" },
      { name := "alphabet"
        description := "Prints A to Z from a counter"
        code := "++++++++[>++++++++<-]>+\n>++++++++++++++++++++++++++[<.+>-]\n" },
      { name := "countdown"
        description := "Prints the digits 9 down to 0"
        code := "++++++++[>++++++<-]>+++++++++\n>++++++++++[<.->-]\n" },
      { name := "cat"
        description := "Copies 64 KiB of input to the output"
        code := ",+[-.,+]\n"
        input := letters (64 * 1024) }]

end TapeMachine.Benchmark
