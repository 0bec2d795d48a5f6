import Cadvisor.Metrics.Encode
import Mathlib.Data.String.Basic

/-!
# The metric families

Name, type and help text of every family the exporter knows, in the order in
which it writes them.
-/

set_option autoImplicit false

namespace Cadvisor

inductive Kind where
  | counter
  | gauge
  deriving DecidableEq

def Kind.asStr : Kind → String
  | .counter => "counter"
  | .gauge => "gauge"

structure Family where
  name : String
  kind : Kind
  help : String
  deriving DecidableEq

def families : List Family :=
  [ ⟨"cadvisor_version_info", .gauge,
      "A metric with a constant '1' value labeled by kernel version, OS version, docker version, cadvisor version & cadvisor revision."⟩,
    ⟨"container_blkio_device_usage_total", .counter, "Blkio Device bytes usage"⟩,
    ⟨"container_cpu_load_average_10s", .gauge,
      "Value of container cpu load average over the last 10 seconds."⟩,
    ⟨"container_cpu_system_seconds_total", .counter,
      "Cumulative system cpu time consumed in seconds."⟩,
    ⟨"container_cpu_usage_seconds_total", .counter, "Cumulative cpu time consumed in seconds."⟩,
    ⟨"container_cpu_user_seconds_total", .counter, "Cumulative user cpu time consumed in seconds."⟩,
    ⟨"container_fs_inodes_free", .gauge, "Number of available Inodes"⟩,
    ⟨"container_fs_inodes_total", .gauge, "Number of Inodes"⟩,
    ⟨"container_fs_io_current", .gauge, "Number of I/Os currently in progress"⟩,
    ⟨"container_fs_io_time_seconds_total", .counter,
      "Cumulative count of seconds spent doing I/Os"⟩,
    ⟨"container_fs_io_time_weighted_seconds_total", .counter,
      "Cumulative weighted I/O time in seconds"⟩,
    ⟨"container_fs_limit_bytes", .gauge,
      "Number of bytes that can be consumed by the container on this filesystem."⟩,
    ⟨"container_fs_read_seconds_total", .counter, "Cumulative count of seconds spent reading"⟩,
    ⟨"container_fs_reads_bytes_total", .counter, "Cumulative count of bytes read"⟩,
    ⟨"container_fs_reads_merged_total", .counter, "Cumulative count of reads merged"⟩,
    ⟨"container_fs_reads_total", .counter, "Cumulative count of reads completed"⟩,
    ⟨"container_fs_sector_reads_total", .counter, "Cumulative count of sector reads completed"⟩,
    ⟨"container_fs_sector_writes_total", .counter, "Cumulative count of sector writes completed"⟩,
    ⟨"container_fs_usage_bytes", .gauge,
      "Number of bytes that are consumed by the container on this filesystem."⟩,
    ⟨"container_fs_write_seconds_total", .counter, "Cumulative count of seconds spent writing"⟩,
    ⟨"container_fs_writes_bytes_total", .counter, "Cumulative count of bytes written"⟩,
    ⟨"container_fs_writes_merged_total", .counter, "Cumulative count of writes merged"⟩,
    ⟨"container_fs_writes_total", .counter, "Cumulative count of writes completed"⟩,
    ⟨"container_last_seen", .gauge, "Last time a container was seen by the exporter"⟩,
    ⟨"container_memory_cache", .gauge, "Number of bytes of page cache memory."⟩,
    ⟨"container_memory_failcnt", .counter, "Number of memory usage hits limits"⟩,
    ⟨"container_memory_failures_total", .counter,
      "Cumulative count of memory allocation failures."⟩,
    ⟨"container_memory_kernel_usage", .gauge, "Size of kernel memory allocated in bytes."⟩,
    ⟨"container_memory_mapped_file", .gauge, "Size of memory mapped files in bytes."⟩,
    ⟨"container_memory_max_usage_bytes", .gauge, "Maximum memory usage recorded in bytes"⟩,
    ⟨"container_memory_rss", .gauge, "Size of RSS in bytes."⟩,
    ⟨"container_memory_swap", .gauge, "Container swap usage in bytes."⟩,
    ⟨"container_memory_usage_bytes", .gauge,
      "Current memory usage in bytes, including all memory regardless of when it was accessed"⟩,
    ⟨"container_memory_working_set_bytes", .gauge, "Current working set in bytes."⟩,
    ⟨"container_network_receive_bytes_total", .counter, "Cumulative count of bytes received"⟩,
    ⟨"container_network_receive_errors_total", .counter,
      "Cumulative count of errors encountered while receiving"⟩,
    ⟨"container_network_receive_packets_dropped_total", .counter,
      "Cumulative count of packets dropped while receiving"⟩,
    ⟨"container_network_receive_packets_total", .counter, "Cumulative count of packets received"⟩,
    ⟨"container_network_transmit_bytes_total", .counter, "Cumulative count of bytes transmitted"⟩,
    ⟨"container_network_transmit_errors_total", .counter,
      "Cumulative count of errors encountered while transmitting"⟩,
    ⟨"container_network_transmit_packets_dropped_total", .counter,
      "Cumulative count of packets dropped while transmitting"⟩,
    ⟨"container_network_transmit_packets_total", .counter,
      "Cumulative count of packets transmitted"⟩,
    ⟨"container_oom_events_total", .counter,
      "Count of out of memory events observed for the container"⟩,
    ⟨"container_scrape_error", .gauge,
      "1 if there was an error while getting container metrics, 0 otherwise"⟩,
    ⟨"container_spec_cpu_period", .gauge, "CPU period of the container."⟩,
    ⟨"container_spec_cpu_shares", .gauge, "CPU share of the container."⟩,
    ⟨"container_spec_memory_limit_bytes", .gauge, "Memory limit for the container."⟩,
    ⟨"container_spec_memory_reservation_limit_bytes", .gauge,
      "Memory reservation limit for the container."⟩,
    ⟨"container_spec_memory_swap_limit_bytes", .gauge, "Memory swap limit for the container."⟩,
    ⟨"container_start_time_seconds", .gauge,
      "Start time of the container since unix epoch in seconds."⟩,
    ⟨"container_tasks_state", .gauge, "Number of tasks in given state"⟩,
    ⟨"machine_cpu_cores", .gauge, "Number of logical CPU cores."⟩,
    ⟨"machine_cpu_physical_cores", .gauge, "Number of physical CPU cores."⟩,
    ⟨"machine_cpu_sockets", .gauge, "Number of CPU sockets."⟩,
    ⟨"machine_memory_bytes", .gauge, "Amount of memory installed on the machine."⟩,
    ⟨"machine_nvm_avg_power_budget_watts", .gauge, "NVM power budget."⟩,
    ⟨"machine_nvm_capacity", .gauge,
      "NVM capacity value labeled by NVM mode (memory mode or app direct mode)."⟩,
    ⟨"machine_scrape_error", .gauge,
      "1 if there was an error while getting machine metrics, 0 otherwise."⟩,
    ⟨"machine_swap_bytes", .gauge, "Amount of swap memory available on the machine."⟩ ]

def familyNames : List String := families.map Family.name

theorem familyNames_sorted : familyNames.Pairwise (· < ·) := by
  rw [← List.isChain_iff_pairwise]
  simp only [familyNames, families, List.map_cons, List.map_nil, List.isChain_cons_cons]
  repeat' apply And.intro
  all_goals first
    | exact List.IsChain.singleton _
    | exact Str.ofList_lt (by decide)

theorem familyNames_nodup : familyNames.Nodup :=
  familyNames_sorted.imp fun less => ne_of_lt less

set_option maxRecDepth 4000 in
theorem families_plain : ∀ family ∈ families,
    PlainName family.name ∧ '\n' ∉ family.help.toList := by
  dsimp only [families]
  repeat
    refine List.forall_mem_cons.mpr ⟨⟨plainName_ofList ?_, Str.notMem_ofList ?_⟩, ?_⟩
    · decide +kernel
    · decide +kernel
  exact fun _ member => absurd member List.not_mem_nil

end Cadvisor
